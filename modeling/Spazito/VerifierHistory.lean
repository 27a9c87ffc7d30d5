import Mathlib.Order.Bounds.Basic
import Spazito.SignedText

set_option autoImplicit false

/-!
# A history of pasted texts

The verifier keeps the greatest count it has seen in a genuine text, and what it says about a text
compares with that.
-/
namespace Spazito
open Ecma Script

namespace Verifier

theorem same_natCast (m n : ℕ) : Number.same (.finite m) (.finite n) = decide (m = n) := by
  simp [Number.same]

theorem lt_natCast (m n : ℕ) : Number.lt (.finite m) (.finite n) = decide (m < n) := by
  simp [Number.lt]

theorem checkSequence_natCast {last n : ℕ} (hlast : last < 2 ^ 53) (hn : n < 2 ^ 53) :
    checkSequence (some (.finite last)) (.finite n) =
      if n = last then .replay (.finite n)
      else if n < last then .older (.finite n) (.finite last)
      else if n = last + 1 then .follows (.finite n) (.finite last)
      else .gap (.finite n) (.finite last) (.finite (n - last - 1 : ℕ)) := by
  have hadd : Number.add (.finite last) (.finite 1) = .finite (last + 1 : ℕ) := by
    simpa using Number.add_natCast last 1 (by omega)
  simp only [checkSequence, hadd, same_natCast, lt_natCast, decide_eq_true_eq]
  split_ifs with h1 h2 h3
  · rfl
  · rfl
  · rfl
  · have hsub := Number.sub_natCast_of_le (show last ≤ n by omega) hn.le
    have hsub' : Number.sub (.finite (n - last : ℕ)) (.finite 1) = .finite (n - last - 1 : ℕ) := by
      simpa using Number.sub_natCast_of_le (show 1 ≤ n - last by omega) (by omega)
    rw [hsub, hsub']

section History

variable [Platform] {page : Page} {key text : JSString}

def paste (page : Page) (texts : List JSString) : Page :=
  texts.foldl (fun page text => (verify page text).1) page

@[simp] theorem paste_nil (page : Page) : paste page [] = page := rfl
@[simp] theorem paste_concat (page : Page) (texts : List JSString) (text : JSString) :
    paste page (texts ++ [text]) = (verify (paste page texts) text).1 := by simp [paste]

/-- The handler leaves the key field alone, keeps the stored count for a text that is not genuine,
and moves it forward for one that is. -/
theorem verify_page (hkey : trim page.secret = key) (hne : key ≠ []) (text : JSString) :
    (verify page text).1.secret = page.secret ∧
      (verify page text).1.storedLastN = match genuine key text with
        | none => page.storedLastN
        | some n => (page.advance n).storedLastN := by
  subst hkey
  have hadvance : ∀ n, (page.saveSecretMaybe.advance n).secret = page.secret ∧
      (page.saveSecretMaybe.advance n).storedLastN = (page.advance n).storedLastN := by
    intro n
    cases h : page.lastN with
    | none =>
      have h' : page.saveSecretMaybe.lastN = none := h
      rw [Page.advance, Page.advance, h, h']
      exact ⟨rfl, rfl⟩
    | some last =>
      have h' : page.saveSecretMaybe.lastN = some last := h
      simp only [Page.advance, h, h']
      cases Number.lt last n <;> exact ⟨rfl, rfl⟩
  cases hp : parseMessage text with
  | none => simp [verify, genuine, hp, Page.saveSecretMaybe, hne]
  | some p =>
    obtain ⟨hok, hbad, -⟩ := verify_parsed hne hp
    by_cases ht : expectedTag (trim page.secret) p = p.tag
    · rw [(hok ht).1]
      simpa [genuine, hp, ht] using hadvance p.n
    · rw [(hbad ht).1]
      simp [genuine, hp, ht, Page.saveSecretMaybe]

theorem paste_secret (hkey : trim page.secret = key) (hne : key ≠ []) (texts : List JSString) :
    (paste page texts).secret = page.secret := by
  induction texts using List.reverseRecOn with
  | nil => rfl
  | append_singleton texts text ih =>
    rw [paste_concat, (verify_page (by rw [ih, hkey]) hne text).1, ih]

def counts (key : JSString) (texts : List JSString) : Set ℕ :=
  {n | ∃ text ∈ texts, genuine key text = some (.finite n)}

/-- What is stored is the greatest count of a genuine text; nothing before the first. -/
def Remembers (key : JSString) (texts : List JSString) (stored : Option JSString) : Prop :=
  match stored with
  | none => ∀ text ∈ texts, genuine key text = none
  | some raw => ∃ n : ℕ, n < 2 ^ 53 ∧ raw = decimal n ∧ IsGreatest (counts key texts) n

/-- All counts of genuine texts are ones that a double holds exactly. -/
def Countable (key : JSString) (texts : List JSString) : Prop :=
  ∀ text ∈ texts, ∀ x, genuine key text = some x → ∃ n : ℕ, n < 2 ^ 53 ∧ x = .finite n

theorem Remembers.step {texts : List JSString} (h : Remembers key texts page.storedLastN)
    (hkey : trim page.secret = key) (hne : key ≠ [])
    (hcount : ∀ x, genuine key text = some x → ∃ n : ℕ, n < 2 ^ 53 ∧ x = .finite n) :
    Remembers key (texts ++ [text]) (verify page text).1.storedLastN := by
  rw [(verify_page hkey hne text).2]
  have hcounts : ∀ m, m ∈ counts key (texts ++ [text]) ↔
      m ∈ counts key texts ∨ genuine key text = some (.finite m) := by
    intro m
    simp [counts, List.mem_append, or_and_right, exists_or]
  cases hg : genuine key text with
  | none =>
    cases hs : page.storedLastN with
    | none =>
      rw [hs] at h
      intro t ht
      rcases List.mem_append.mp ht with ht | ht
      · exact h t ht
      · rw [List.mem_singleton.mp ht, hg]
    | some raw =>
      rw [hs] at h
      obtain ⟨n, hn, hraw, hmem, hmax⟩ := h
      refine ⟨n, hn, hraw, (hcounts n).mpr (.inl hmem), fun m hm => ?_⟩
      rcases (hcounts m).mp hm with hm | hm
      · exact hmax hm
      · rw [hg] at hm
        cases hm
  | some x =>
    obtain ⟨n, hn, rfl⟩ := hcount x hg
    have hnew : ∀ m : ℕ, genuine key text = some (.finite m) ↔ m = n := by
      intro m
      simp [hg, eq_comm]
    cases hs : page.storedLastN with
    | none =>
      rw [hs] at h
      have hadvance : (page.advance (.finite n)).storedLastN = some (decimal n) := by
        simp [Page.advance, Page.lastN, hs, Number.toText_natCast n hn.le]
      change Remembers key _ (page.advance (.finite n)).storedLastN
      rw [hadvance]
      refine ⟨n, hn, rfl, (hcounts n).mpr (.inr hg), fun m hm => ?_⟩
      rcases (hcounts m).mp hm with ⟨t, ht, hgt⟩ | hm
      · rw [h t ht] at hgt
        cases hgt
      · exact ((hnew m).mp hm).le
    | some raw =>
      rw [hs] at h
      obtain ⟨last, hlast, rfl, hmem, hmax⟩ := h
      have hadvance : (page.advance (.finite n)).storedLastN =
          some (decimal (if last < n then n else last)) := by
        by_cases hlt : last < n <;>
          simp [Page.advance, Page.lastN, hs, Number.parseInt_decimal last hlast.le, lt_natCast, hlt,
            Number.toText_natCast n hn.le]
      change Remembers key _ (page.advance (.finite n)).storedLastN
      rw [hadvance]
      refine ⟨_, ?_, rfl, ?_, fun m hm => ?_⟩
      · split_ifs <;> assumption
      · split_ifs
        · exact (hcounts _).mpr (.inr hg)
        · exact (hcounts _).mpr (.inl hmem)
      · rcases (hcounts m).mp hm with hm | hm
        · have := hmax hm
          split_ifs <;> omega
        · have := (hnew m).mp hm
          split_ifs <;> omega

theorem paste_remembers (hfresh : page.storedLastN = none) (hkey : trim page.secret = key)
    (hne : key ≠ []) (texts : List JSString) (hcount : Countable key texts) :
    Remembers key texts (paste page texts).storedLastN := by
  induction texts using List.reverseRecOn with
  | nil => simp [Remembers, hfresh]
  | append_singleton texts text ih =>
    rw [paste_concat]
    refine (ih fun t ht => hcount t (by simp [ht])).step ?_ hne (hcount text (by simp))
    rw [paste_secret hkey hne, hkey]

/-- The line for a genuine text, by the greatest count so far. -/
theorem verify_seq (hkey : trim page.secret = key) (hne : key ≠ []) {n : Number}
    (hg : genuine key text = some n) :
    (verify page text).2.seq = some (checkSequence page.lastN n) := by
  subst hkey
  obtain ⟨p, hp, hn⟩ := Option.bind_eq_some_iff.mp hg
  split_ifs at hn with ht
  cases hn
  exact (verify_parsed hne hp).2.2

def Consecutive (key : JSString) : ℕ → List JSString → Prop
  | _, [] => True
  | n, text :: texts => genuine key text = some (.finite n) ∧ Consecutive key (n + 1) texts

theorem Consecutive.count_of_append {n : ℕ} {front back : List JSString} {text : JSString}
    (h : Consecutive key n (front ++ text :: back)) :
    genuine key text = some (.finite (n + front.length : ℕ)) ∧
      Consecutive key (n + front.length + 1) back := by
  induction front generalizing n with
  | nil => exact h
  | cons x front ih =>
    have hnext := ih h.2
    rwa [show n + 1 + front.length = n + (x :: front).length by rw [List.length_cons]; omega] at hnext

theorem Consecutive.pairwise {n : ℕ} {texts : List JSString} (h : Consecutive key n texts) :
    texts.Pairwise fun x y => ∃ i j : ℕ, i < j ∧ genuine key x = some (.finite i) ∧
      genuine key y = some (.finite j) := by
  induction texts generalizing n with
  | nil => exact List.Pairwise.nil
  | cons x texts ih =>
    refine List.Pairwise.cons (fun y hy => ?_) (ih h.2)
    obtain ⟨front, back, rfl⟩ := List.append_of_mem hy
    exact ⟨n, _, by omega, h.1, h.2.count_of_append.1⟩

theorem greatest_of_ordered {texts pre mid post : List JSString} {a : JSString} {i : ℕ}
    (hordered : (texts.filter fun t => (genuine key t).isSome).Pairwise fun x y =>
      ∃ i j : ℕ, i < j ∧ genuine key x = some (.finite i) ∧ genuine key y = some (.finite j))
    (htexts : texts = pre ++ a :: (mid ++ post)) (ha : genuine key a = some (.finite i))
    (hmid : ∀ t ∈ mid, genuine key t = none) : IsGreatest (counts key (pre ++ a :: mid)) i := by
  refine ⟨⟨a, by simp, ha⟩, ?_⟩
  rintro m ⟨t, ht, hm⟩
  rcases List.mem_append.mp ht with ht | ht
  · rw [htexts, List.filter_append, List.pairwise_append] at hordered
    obtain ⟨i', j', hlt, hi', hj'⟩ := hordered.2.2 t
      (List.mem_filter.mpr ⟨ht, by simp [hm]⟩) a (by simp [ha])
    rw [hm] at hi'
    rw [ha] at hj'
    simp only [Option.some.injEq, Number.finite.injEq, Nat.cast_inj] at hi' hj'
    omega
  · rcases List.mem_cons.mp ht with rfl | ht
    · rw [ha] at hm
      simp only [Option.some.injEq, Number.finite.injEq, Nat.cast_inj] at hm
      exact hm.ge
    · rw [hmid t ht] at hm
      cases hm

omit [Platform] in
theorem between_of_sublist {α : Type} {a b : α} {xs : List α} (h : [a, b].Sublist xs) :
    ∃ front between back, xs = front ++ a :: (between ++ b :: back) := by
  obtain ⟨xs₁, xs₂, rfl, ha, hb⟩ := List.cons_sublist_iff.mp h
  obtain ⟨front, rest, rfl⟩ := List.append_of_mem ha
  obtain ⟨between, back, rfl⟩ := List.append_of_mem (List.singleton_sublist.mp hb)
  exact ⟨front, rest ++ between, back, by simp⟩

end History
end Verifier

/-! ## What the signer issues -/

namespace Signer

variable [Platform]

theorem exec_sign_busy {w : World} (message : JSString) (hl : w.env.lock 0 = false)
    (hdebug : w.store.secret .debugMode ≠ js "true") : ∃ env,
    (sign message).exec host w = (.ok (trim message), ⟨w.store, env⟩) := by
  have hd : Config.isDebugMode.exec host w = (.ok false, w) := by
    rw [Prog.exec_of_run host (run_isDebugMode w), decide_eq_false hdebug]
  refine ⟨w.env.afterLock, ?_⟩
  simp [sign, claim, SecurityVault.nextSequence, Prog.exec_bind, hd, exec_withScriptLock, hl]

/-- The texts that get a block when `sign` is called once for each message, each call in an execution
of its own. -/
def signedTexts (s : Store) : List (JSString × Env) → List JSString
  | [] => []
  | (message, env) :: calls =>
    let r := (sign message).exec host ⟨s, env⟩
    (if env.lock 0 then r.1.toOption.toList else []) ++ signedTexts r.2.store calls

theorem signedTexts_consecutive {s : Store} {c : ℕ} {calls : List (JSString × Env)}
    (hkey : Config.isMissing (s .verifierKey) = false)
    (hdebug : s.secret .debugMode ≠ js "true")
    (hc : SecurityVault.countOf (s .secMsgCount) = .finite c)
    (hbound : c + calls.length < 2 ^ 53) (hw : ∀ call ∈ calls, call.2.Writes) :
    Verifier.Consecutive (s.secret .verifierKey) (c + 1) (signedTexts s calls) ∧
      (signedTexts s calls).length ≤ calls.length := by
  induction calls generalizing s c with
  | nil => exact ⟨trivial, le_rfl⟩
  | cons call calls ih =>
    obtain ⟨message, env⟩ := call
    obtain ⟨hwrite, hws⟩ := List.forall_mem_cons.mp hw
    rw [List.length_cons] at hbound
    rw [signedTexts]
    cases hl : env.lock 0 with
    | false =>
      obtain ⟨env', hexec⟩ := exec_sign_busy (w := ⟨s, env⟩) message hl hdebug
      obtain ⟨hcons, hlen⟩ := ih hkey hdebug hc (by omega) hws
      simp only [hexec, Bool.false_eq_true, ↓reduceIte, List.nil_append, List.length_cons]
      exact ⟨hcons, by omega⟩
    | true =>
      have hclaim := exec_claim (w := ⟨s, env⟩) hc (by omega) hdebug hl (hwrite 0)
      have hexec := exec_sign (w := ⟨s, env⟩) message (by omega) hkey hclaim
      have hothers : ∀ k ≠ .secMsgCount, (s.set .secMsgCount (decimal (c + 1))) k = s k :=
        fun k hk => Store.set_ne s _ hk
      have hsecret : ∀ k ≠ .secMsgCount,
          (s.set .secMsgCount (decimal (c + 1))).secret k = s.secret k := fun k hk => by
        rw [Store.secret, hothers k hk]
        rfl
      have hcount : SecurityVault.countOf ((s.set .secMsgCount (decimal (c + 1))) .secMsgCount) =
          .finite (c + 1 : ℕ) := by
        rw [Store.set_self]
        exact SecurityVault.countOf_decimal (by omega)
      obtain ⟨hcons, hlen⟩ := ih (s := s.set .secMsgCount (decimal (c + 1)))
        (by rwa [hothers _ (by decide)]) (by rwa [hsecret _ (by decide)]) hcount (by omega) hws
      rw [hsecret _ (by decide)] at hcons
      simp only [hexec, ↓reduceIte, Except.toOption, Option.toList_some, List.singleton_append,
        List.length_cons]
      exact ⟨⟨Verifier.genuine_signedText _ (by omega) message, hcons⟩, by omega⟩

end Signer

/-! ## What a history of texts shows -/

namespace Verifier

section Sound

variable [Platform] {page : Page} {key : JSString} {texts : List JSString}

theorem Countable.mono {texts' : List JSString} (h : Countable key texts)
    (hsub : ∀ t ∈ texts', t ∈ texts) : Countable key texts' := fun t ht => h t (hsub t ht)

theorem lastN_of_mem (hfresh : page.storedLastN = none) (hkey : trim page.secret = key)
    (hne : key ≠ []) (hcount : Countable key texts) {text : JSString} {n : ℕ} (ht : text ∈ texts)
    (hn : genuine key text = some (.finite n)) :
    ∃ last : ℕ, last < 2 ^ 53 ∧ n ≤ last ∧ (paste page texts).lastN = some (.finite last) := by
  have h := paste_remembers hfresh hkey hne texts hcount
  cases hs : (paste page texts).storedLastN with
  | none =>
    rw [hs] at h
    rw [h text ht] at hn
    cases hn
  | some raw =>
    rw [hs] at h
    obtain ⟨last, hlast, rfl, -, hmax⟩ := h
    refine ⟨last, hlast, hmax ⟨text, ht, hn⟩, ?_⟩
    simp [Page.lastN, hs, Number.parseInt_decimal last hlast.le]

theorem lastN_of_greatest (hfresh : page.storedLastN = none) (hkey : trim page.secret = key)
    (hne : key ≠ []) (hcount : Countable key texts) {n : ℕ} (hn : IsGreatest (counts key texts) n) :
    n < 2 ^ 53 ∧ (paste page texts).lastN = some (.finite n) := by
  obtain ⟨text, ht, hg⟩ := hn.1
  have h := paste_remembers hfresh hkey hne texts hcount
  cases hs : (paste page texts).storedLastN with
  | none =>
    rw [hs] at h
    rw [h text ht] at hg
    cases hg
  | some raw =>
    rw [hs] at h
    obtain ⟨last, hlast, rfl, hgreatest⟩ := h
    obtain rfl := hgreatest.unique hn
    exact ⟨hlast, by simp [Page.lastN, hs, Number.parseInt_decimal last hlast.le]⟩

def seqAfter (page : Page) (texts : List JSString) (text : JSString) : Option Sequence :=
  (verify (paste page texts) text).2.seq

theorem seqAfter_genuine (hkey : trim page.secret = key) (hne : key ≠ []) {text : JSString}
    {n : Number} (hn : genuine key text = some n) :
    seqAfter page texts text = some (checkSequence (paste page texts).lastN n) :=
  verify_seq (by rw [paste_secret hkey hne, hkey]) hne hn

theorem seqAfter_repeat (hfresh : page.storedLastN = none) (hkey : trim page.secret = key)
    (hne : key ≠ []) (hcount : Countable key texts) {text : JSString} (ht : text ∈ texts)
    {x : Number} (hx : genuine key text = some x) :
    seqAfter page texts text = some (.replay x) ∨
      ∃ last, seqAfter page texts text = some (.older x last) := by
  obtain ⟨n, hn, rfl⟩ := hcount text ht x hx
  obtain ⟨last, hlast, hle, hstored⟩ := lastN_of_mem hfresh hkey hne hcount ht hx
  rw [seqAfter_genuine hkey hne hx, hstored, checkSequence_natCast hlast hn]
  rcases hle.eq_or_lt with heq | hlt
  · exact .inl (by rw [if_pos heq])
  · exact .inr ⟨_, by rw [if_neg hlt.ne, if_pos hlt]⟩

/-- A genuine text after another one, both among texts of consecutive counts: it follows, or the gap
is what stands between them. -/
theorem seqAfter_gap {pre mid post signed front between back : List JSString} {a b : JSString} {n : ℕ}
    (hfresh : page.storedLastN = none) (hkey : trim page.secret = key) (hne : key ≠ [])
    (hcount : Countable key (pre ++ a :: mid)) (hsigned : Consecutive key n signed)
    (hbound : n + signed.length ≤ 2 ^ 53)
    (hsub : ((pre ++ a :: (mid ++ b :: post)).filter fun t => (genuine key t).isSome).Sublist signed)
    (hmid : ∀ t ∈ mid, genuine key t = none)
    (hsplit : signed = front ++ a :: (between ++ b :: back)) :
    ∃ x y, genuine key a = some x ∧ genuine key b = some y ∧ seqAfter page (pre ++ a :: mid) b =
      some (if between = [] then .follows y x else .gap y x (.finite between.length)) := by
  rw [hsplit] at hsigned
  obtain ⟨ha, hrest⟩ := hsigned.count_of_append
  obtain ⟨hb, -⟩ := hrest.count_of_append
  refine ⟨_, _, ha, hb, ?_⟩
  have hordered := hsigned.pairwise.sublist (hsplit ▸ hsub)
  obtain ⟨hlast, hstored⟩ := lastN_of_greatest hfresh hkey hne hcount
    (greatest_of_ordered hordered rfl ha hmid)
  have hlen : n + front.length + 1 + between.length < 2 ^ 53 := by
    rw [hsplit] at hbound
    simp only [List.length_append, List.length_cons] at hbound
    omega
  rw [seqAfter_genuine hkey hne hb, hstored, checkSequence_natCast hlast hlen,
    if_neg (by omega), if_neg (by omega)]
  cases between with
  | nil => simp
  | cons t between =>
    rw [if_neg (by rw [List.length_cons]; omega), if_neg (List.cons_ne_nil _ _)]
    have hgap : n + front.length + 1 + (t :: between).length - (n + front.length) - 1 =
        (t :: between).length := by omega
    rw [hgap]

/-- **What the verifier says about a history.** For any pasted texts: the stored count is the greatest
count of a genuine text, it never goes back, and nothing else changes it; a genuine text seen before is
a replay or an older message; and genuine texts pasted in the order in which the bot signed them are
reported as following, or with the number of signed texts that are missing in between. -/
theorem paste_sound (hfresh : page.storedLastN = none) (hne : trim page.secret ≠ [])
    (hcount : Countable (trim page.secret) texts) :
    (∀ pre post, texts = pre ++ post →
      Remembers (trim page.secret) pre (paste page pre).storedLastN ∧
      ∀ n : ℕ, (paste page pre).storedLastN = some (decimal n) →
        ∃ m : ℕ, (paste page texts).storedLastN = some (decimal m) ∧ n ≤ m) ∧
    (∀ pre text post, texts = pre ++ text :: post → genuine (trim page.secret) text = none →
      (paste page (pre ++ [text])).storedLastN = (paste page pre).storedLastN) ∧
    (∀ pre text mid post x, texts = pre ++ text :: (mid ++ text :: post) →
      genuine (trim page.secret) text = some x →
        seqAfter page (pre ++ text :: mid) text = some (.replay x) ∨
        ∃ last, seqAfter page (pre ++ text :: mid) text = some (.older x last)) ∧
    ∀ (s : Store) (c : ℕ) (calls : List (JSString × Env)),
      Config.isMissing (s .verifierKey) = false → s.secret .verifierKey = trim page.secret →
      s.secret .debugMode ≠ js "true" → SecurityVault.countOf (s .secMsgCount) = .finite c →
      c + calls.length < 2 ^ 53 → (∀ call ∈ calls, call.2.Writes) →
      (texts.filter fun t => (genuine (trim page.secret) t).isSome).Sublist
        (Signer.signedTexts s calls) →
      ∀ pre a mid b post, texts = pre ++ a :: (mid ++ b :: post) →
        (genuine (trim page.secret) a).isSome = true →
        (genuine (trim page.secret) b).isSome = true →
        (∀ t ∈ mid, genuine (trim page.secret) t = none) →
        (∃ front between back,
          Signer.signedTexts s calls = front ++ a :: (between ++ b :: back)) ∧
        ∀ front between back, Signer.signedTexts s calls = front ++ a :: (between ++ b :: back) →
          ∃ x y, genuine (trim page.secret) a = some x ∧ genuine (trim page.secret) b = some y ∧
            seqAfter page (pre ++ a :: mid) b = some (if between = [] then .follows y x
              else .gap y x (.finite between.length)) := by
  refine ⟨fun pre post htexts => ?_, fun pre text post htexts hg => ?_,
    fun pre text mid post x htexts hx => ?_, ?_⟩
  · have hpre := paste_remembers hfresh rfl hne pre (hcount.mono fun t ht => by simp [htexts, ht])
    refine ⟨hpre, fun n hn => ?_⟩
    rw [hn] at hpre
    obtain ⟨n', -, heq, ⟨t, ht, hg⟩, -⟩ := hpre
    obtain rfl := decimal_injective heq
    have hall := paste_remembers hfresh rfl hne texts hcount
    cases hs : (paste page texts).storedLastN with
    | none =>
      rw [hs] at hall
      rw [hall t (by simp [htexts, ht])] at hg
      cases hg
    | some raw =>
      rw [hs] at hall
      obtain ⟨m, -, rfl, -, hmax⟩ := hall
      exact ⟨m, rfl, hmax ⟨t, by simp [htexts, ht], hg⟩⟩
  · have hkey : trim (paste page pre).secret = trim page.secret := by rw [paste_secret rfl hne]
    rw [paste_concat, (verify_page hkey hne text).2, hg]
  · exact seqAfter_repeat hfresh rfl hne
      (hcount.mono fun t ht => by simp only [htexts, List.mem_append, List.mem_cons] at ht ⊢; tauto)
      (by simp) hx
  · intro s c calls hkey hsecret hdebug hc hbound hw hsub pre a mid b post htexts ha hb hmid
    obtain ⟨hsigned, hlen⟩ := Signer.signedTexts_consecutive hkey hdebug hc hbound hw
    rw [hsecret] at hsigned
    have hab : [a, b].Sublist (texts.filter fun t => (genuine (trim page.secret) t).isSome) := by
      rw [htexts]
      simp only [List.filter_append, List.filter_cons, ha, hb, ↓reduceIte]
      exact ((List.Sublist.cons_cons b (List.nil_sublist _)).trans
        (List.sublist_append_right _ _)).cons_cons a |>.trans (List.sublist_append_right _ _)
    refine ⟨between_of_sublist (hab.trans hsub), fun front between back hsplit => ?_⟩
    subst htexts
    exact seqAfter_gap hfresh rfl hne (hcount.mono fun t ht => by
      simp only [List.mem_append, List.mem_cons] at ht ⊢; tauto) hsigned (by omega) hsub hmid hsplit

end Sound

section
open AppsScript

/-- Two days' texts with a forgery in between. -/
theorem paste_sound_two_days :
    let first := Signer.signedText (js "key") 1 (js "SPY 512.30")
    let second := Signer.signedText (js "key") 2 (js "SPY 498.10")
    seqAfter ⟨js "key", false, none, none⟩ [first, js "SPY 1.00 [#9 0BADF00D]"] second =
      some (.follows (.finite (2 : ℕ)) (.finite (1 : ℕ))) := by
  intro first second
  have h1 : genuine (js "key") first = some (.finite (1 : ℕ)) := genuine_signedText _ (by decide) _
  have h2 : genuine (js "key") second = some (.finite (2 : ℕ)) := genuine_signedText _ (by decide) _
  have hforged : genuine (js "key") (js "SPY 1.00 [#9 0BADF00D]") = none := by decide +kernel
  have hkey : trim (js "key") = js "key" := by decide
  have hcount : Countable (js "key") [first, js "SPY 1.00 [#9 0BADF00D]", second] := by
    intro t ht x hx
    rcases List.mem_cons.mp ht with rfl | ht
    · exact ⟨1, by decide, Option.some.inj (hx.symm.trans h1)⟩
    · rcases List.mem_cons.mp ht with rfl | ht
      · rw [hforged] at hx
        cases hx
      · rw [List.mem_singleton.mp ht] at hx
        exact ⟨2, by decide, Option.some.inj (hx.symm.trans h2)⟩
  have hsecret : sampleStore.secret .verifierKey = js "key" := by decide
  have hrun : Signer.signedTexts sampleStore
      [(js "SPY 512.30", sampleEnv), (js "SPY 498.10", sampleEnv)] = [first, second] := by
    have hsign1 := Signer.exec_sign (w := ⟨sampleStore, sampleEnv⟩) (js "SPY 512.30") (by decide)
      (by decide) (Signer.exec_claim (c := 0) (by decide +kernel) (by decide) (by decide) rfl rfl)
    have hsign2 := Signer.exec_sign
      (w := ⟨sampleStore.set .secMsgCount (decimal 1), sampleEnv⟩) (js "SPY 498.10") (by decide)
      (by decide) (Signer.exec_claim (c := 1) (by decide +kernel) (by decide) (by decide) rfl rfl)
    have hlock : sampleEnv.lock 0 = true := rfl
    simp only [Signer.signedTexts, hsign1, hsign2, hlock, ↓reduceIte]
    rfl
  obtain ⟨x, y, hx, hy, hseq⟩ := ((paste_sound
    (show (Page.mk (js "key") false none none).storedLastN = none from rfl) (by decide)
    (hkey ▸ hcount)).2.2.2
      sampleStore 0 [(js "SPY 512.30", sampleEnv), (js "SPY 498.10", sampleEnv)] (by decide)
      (by decide) (by decide) (by decide +kernel) (by decide) (by rintro _ h i; fin_cases h <;> rfl)
      (by simp [hkey, h1, h2, hforged, hrun]) [] first [js "SPY 1.00 [#9 0BADF00D]"] second [] rfl
      (by simp [hkey, h1]) (by simp [hkey, h2]) (by simp [hkey, hforged])).2 [] [] [] hrun
  rw [hkey] at hx hy
  obtain rfl := Option.some.inj (hx.symm.trans h1)
  obtain rfl := Option.some.inj (hy.symm.trans h2)
  simpa using hseq

end
end Verifier
end Spazito
