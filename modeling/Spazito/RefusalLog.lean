import Spazito.RedactorFixpoint
import Spazito.RedactorUrls

set_option autoImplicit false

/-!
# The line of a refused message

Twilio's refusal may name the account. The body is cut before it is redacted, so that the account
SID may be cut too, and exactly then a part of it may be logged.
-/
namespace Spazito
open Ecma Ecma.Regex Script

namespace Redactor

/-! ## Credentials before a token -/

/-- Part of a token that could be taken for credentials but does not introduce any. -/
structure IsPiece (y : JSString) : Prop where
  ne_nil : y ≠ []
  base64 : ∀ u ∈ y, isBase64 u = true
  no_s : 115 ∉ y

def SpaceNext (q : JSString) : Prop := q = [] ∨ ∃ q', q = 32 :: q'

def AtStart (p : JSString) : Prop := p = [] ∨ ∃ p', p = p' ++ [32]

def redactBasic (before t : JSString) : JSString :=
  replaceFrom basicPattern (js "[auth redacted]") 0 before t

theorem base64_not_space {u : CodeUnit} (h : isBase64 u = true) : isSpace u = false := by
  simp [isBase64, isUpper, isLower, isDigit, isSpace, UInt16.le_iff_toNat_le,
    ← UInt16.toNat_inj] at h ⊢
  omega

theorem SpaceNext.base64 {q : JSString} (h : SpaceNext q) : q.head?.any isBase64 = false := by
  rcases h with rfl | ⟨q', rfl⟩ <;> rfl

theorem basic_match {before t : JSString} {e : Cursor}
    (he : (run basicPattern ⟨before, t, []⟩).head? = some e) :
    before.head?.any isWord = false ∧ e.rest.head?.any isBase64 = false ∧
      ∃ spaces blob, t = js "Basic" ++ (spaces ++ (blob ++ e.rest)) ∧ spaces ≠ [] ∧
        (∀ u ∈ spaces, isSpace u = true) ∧ 8 ≤ blob.length ∧ ∀ u ∈ blob, isBase64 u = true := by
  obtain ⟨_, ⟨spaces, blob, rfl, hne, hs, h8, hb⟩, hpass, hleft, -⟩ :=
    (reads_basic _ e).mp (List.mem_of_head? he)
  refine ⟨hleft rfl, greedy_basic _ e he, spaces, blob, ?_, hne, hs, h8, hb⟩
  rw [show t = _ from hpass.1]
  simp

theorem run_unique {p : CodeUnit → Bool} {x y x' y' : JSString} (h : x ++ y = x' ++ y')
    (hx : ∀ u ∈ x, p u = true) (hy : y.head?.any p = false) (hx' : ∀ u ∈ x', p u = true)
    (hy' : y'.head?.any p = false) : x = x' ∧ y = y' := by
  have hhead : ∀ b : JSString, b.head?.any p = false → ∀ u ∈ b.head?, p u = false := by
    intro b hb
    cases b with
    | nil => simp
    | cons u b => simpa using hb
  exact span_unique h hx hx' (hhead y hy) (hhead y' hy')

theorem redactBasic_hit {before spaces blob r : JSString} (hbefore : before.head?.any isWord = false)
    (hne : spaces ≠ []) (hs : ∀ u ∈ spaces, isSpace u = true) (h8 : 8 ≤ blob.length)
    (hb : ∀ u ∈ blob, isBase64 u = true) (hr : r.head?.any isBase64 = false) :
    redactBasic before (js "Basic" ++ (spaces ++ (blob ++ r))) = js "[auth redacted]" ++
      redactBasic ((js "Basic" ++ (spaces ++ blob)).reverse ++ before) r := by
  have hword : IsBasic (js "Basic" ++ (spaces ++ blob)) := ⟨spaces, blob, rfl, hne, hs, h8, hb⟩
  have hrun : run basicPattern ⟨before, js "Basic" ++ (spaces ++ (blob ++ r)), []⟩ ≠ [] :=
    (reads_basic.finds _ _).mpr ⟨_, r, by simp, hword, fun _ => hbefore, by simp⟩
  obtain ⟨e, l, he⟩ := List.exists_cons_of_ne_nil hrun
  have he : (run basicPattern ⟨before, js "Basic" ++ (spaces ++ (blob ++ r)), []⟩).head? = some e := by
    rw [he, List.head?_cons]
  obtain ⟨-, hend, spaces', blob', ht, -, hs', h8', hb'⟩ := basic_match he
  have hhead : ∀ a b : JSString, 8 ≤ a.length → (∀ u ∈ a, isBase64 u = true) →
      (a ++ b).head?.any isSpace = false := by
    intro a b ha hab
    cases a with
    | nil => simp at ha
    | cons u a => simpa using base64_not_space (hab u (by simp))
  obtain ⟨-, hblob⟩ := run_unique (List.append_cancel_left ht) hs (hhead blob r h8 hb) hs'
    (hhead blob' e.rest h8' hb')
  obtain ⟨-, hrest⟩ := run_unique hblob hb hr hb' hend
  have hsplit : js "Basic" ++ (spaces ++ (blob ++ r)) = (js "Basic" ++ (spaces ++ blob)) ++ r := by simp
  rw [redactBasic, hsplit, replaceFrom_hit (by simp [show js "Basic" ≠ [] by decide])
    (by rw [← hsplit]; exact he) hrest.symm]
  rfl

theorem redactBasic_miss {before t : JSString} {u : CodeUnit}
    (h : run basicPattern ⟨before, u :: t, []⟩ = []) :
    redactBasic before (u :: t) = u :: redactBasic (u :: before) t := replaceFrom_miss h

theorem redactBasic_congr {before before' : JSString}
    (h : before.head?.any isWord = before'.head?.any isWord) (t : JSString) :
    redactBasic before t = redactBasic before' t :=
  replaceFrom_congr (show stops true none basicPattern = true by decide) (fun _ => h) 0 t

theorem run_basic_ne_nil {before t : JSString} (h : run basicPattern ⟨before, t, []⟩ ≠ []) :
    ∃ t', t = js "Basic" ++ t' := by
  obtain ⟨_, z, rfl, ⟨spaces, blob, rfl, -⟩, -⟩ := (reads_basic.finds _ _).mp h
  exact ⟨spaces ++ (blob ++ z), by simp⟩

theorem redactBasic_space (before t : JSString) :
    redactBasic before (32 :: t) = 32 :: redactBasic [] t := by
  have hmiss : run basicPattern ⟨before, 32 :: t, []⟩ = [] := by
    by_contra hne
    obtain ⟨t', ht⟩ := run_basic_ne_nil hne
    rw [show js "Basic" = 66 :: js "asic" by decide, List.cons_append, List.cons.injEq] at ht
    exact absurd ht.1 (by decide)
  have hflag : (32 :: before).head?.any isWord = ([] : JSString).head?.any isWord := rfl
  rw [redactBasic_miss hmiss, redactBasic_congr hflag]

theorem redactBasic_nil (before : JSString) : redactBasic before [] = [] := by
  refine replaceFrom_nil ?_
  by_contra hne
  obtain ⟨t', ht⟩ := run_basic_ne_nil hne
  exact absurd (List.append_eq_nil_iff.mp ht.symm).1 (by decide)

theorem redactBasic_next {q : JSString} (hq : SpaceNext q) (before : JSString) :
    redactBasic before q = redactBasic [] q := by
  rcases hq with rfl | ⟨q', rfl⟩
  · rw [redactBasic_nil, redactBasic_nil]
  · rw [redactBasic_space, redactBasic_space]

theorem IsPiece.run_nil {y q v w before : JSString} (hy : IsPiece y) (hq : SpaceNext q)
    (hvw : y = v ++ w) (hw : w ≠ []) : run basicPattern ⟨before, w ++ q, []⟩ = [] := by
  by_contra hne
  obtain ⟨t', ht⟩ := run_basic_ne_nil hne
  have hs : ∀ u ∈ w, u ≠ 115 := fun u hu h => hy.no_s (by rw [hvw, ← h]; simp [hu])
  have hword : js "Basic" = [66, 97, 115, 105, 99] := by decide
  rw [hword] at ht
  rcases w with _ | ⟨u₁, _ | ⟨u₂, _ | ⟨u₃, w⟩⟩⟩
  · exact hw rfl
  · rcases hq with rfl | ⟨q', rfl⟩ <;> simp at ht
  · rcases hq with rfl | ⟨q', rfl⟩ <;> simp at ht
  · simp only [List.cons_append, List.cons.injEq] at ht
    exact hs u₃ (by simp) ht.2.2.1

theorem basic_cases {before p y q : JSString} (hp : ∃ p', p = p' ++ [32]) (hy : IsPiece y)
    (hq : SpaceNext q) (h : run basicPattern ⟨before, p ++ (y ++ q), []⟩ ≠ []) :
    before.head?.any isWord = false ∧
      ((∃ spaces, p = js "Basic" ++ spaces ∧ spaces ≠ [] ∧ (∀ u ∈ spaces, isSpace u = true) ∧
        8 ≤ y.length) ∨
      ∃ spaces blob r, p = js "Basic" ++ (spaces ++ (blob ++ r)) ∧ spaces ≠ [] ∧
        (∀ u ∈ spaces, isSpace u = true) ∧ 8 ≤ blob.length ∧ (∀ u ∈ blob, isBase64 u = true) ∧
        r.head?.any isBase64 = false ∧ ∃ r', r = r' ++ [32]) := by
  obtain ⟨e, l, he⟩ := List.exists_cons_of_ne_nil h
  obtain ⟨hbefore, hend, spaces, blob, ht, hne, hs, h8, hb⟩ :=
    basic_match (e := e) (by rw [he, List.head?_cons])
  have hlast : ∀ a x : JSString, p = a ++ x → x ≠ [] → ∃ x', x = x' ++ [32] := by
    intro a x hax hx
    obtain ⟨p', rfl⟩ := hp
    rcases List.eq_nil_or_concat x with rfl | ⟨x, u, rfl⟩
    · exact absurd rfl hx
    · rw [List.concat_eq_append, ← List.append_assoc] at hax
      obtain ⟨-, hu⟩ := List.append_inj' hax rfl
      exact ⟨x, by rw [List.concat_eq_append, hu]⟩
  refine ⟨hbefore, ?_⟩
  rcases List.append_eq_append_iff.mp ht with ⟨w, hw, -⟩ | ⟨w, hw, hrest⟩
  · obtain ⟨p', rfl⟩ := hp
    have hmem : (32 : CodeUnit) ∈ js "Basic" := by simp [hw]
    exact absurd hmem (by decide)
  · have hlong : blob ++ e.rest = y ++ q → 8 ≤ y.length := fun hblob =>
      (run_unique hblob hb hend hy.base64 hq.base64).1 ▸ h8
    rcases List.append_eq_append_iff.mp hrest with ⟨w', hw', hblob⟩ | ⟨w', hw', hblob⟩
    · cases w' with
      | nil => exact .inl ⟨spaces, by simpa [hw'] using hw, hne, hs, hlong hblob⟩
      | cons u w' =>
        obtain ⟨x, hx⟩ := hlast (js "Basic" ++ spaces) (u :: w') (by rw [hw, hw']; simp) (by simp)
        rw [hx] at hblob hw'
        rcases List.append_eq_append_iff.mp hblob with ⟨r, hr, hrest⟩ | ⟨r, hr, -⟩
        · refine .inr ⟨spaces, blob, r, by rw [hw, hw', hr], hne, hs, h8, hb, ?_, ?_⟩
          · cases r with
            | nil => rfl
            | cons y r => simpa [hrest] using hend
          · refine hlast (js "Basic" ++ (spaces ++ blob)) r (by rw [hw, hw', hr]; simp) ?_
            rintro rfl
            rw [List.append_nil] at hr
            exact absurd (hb 32 (by simp [← hr])) (by decide)
        · exact absurd (hb 32 (by simp [hr])) (by decide)
    · cases w' with
      | nil => exact .inl ⟨spaces, by simpa [hw'] using hw, hne, hs, hlong hblob.symm⟩
      | cons u w' =>
        obtain ⟨v, y', hy'⟩ := List.exists_cons_of_ne_nil hy.ne_nil
        rw [hy', List.cons_append, List.cons_append, List.cons.injEq] at hblob
        have hspace := hs u (by simp [hw'])
        have hbase := base64_not_space (hy.base64 v (by simp [hy']))
        rw [hblob.1] at hbase
        exact absurd (hspace.symm.trans hbase) (by decide)

/-! ## A piece behind any text -/

/-- What becomes of a piece: where its front is taken for the introduction of credentials, it goes
with it if it is long enough. -/
def afterPiece (o : JSString) (taken : Option JSString) (y q : JSString) : JSString :=
  match taken with
  | some o' => if 8 ≤ y.length then o' ++ (js "[auth redacted]" ++ redactBasic [] q)
    else o ++ (y ++ redactBasic [] q)
  | none => o ++ (y ++ redactBasic [] q)

theorem append_afterPiece (w o : JSString) (taken : Option JSString) (y q : JSString) :
    w ++ afterPiece o taken y q = afterPiece (w ++ o) (taken.map (w ++ ·)) y q := by
  cases taken with
  | none => simp [afterPiece]
  | some o' =>
    simp only [afterPiece, Option.map_some]
    split_ifs <;> simp

theorem basic_piece (before p : JSString) (hp : AtStart p) : ∃ o, (p = [] ∨ ∃ o', o = o' ++ [32]) ∧
    (p = [] → o = []) ∧ ∃ taken, ∀ y q, IsPiece y → SpaceNext q →
      redactBasic before (p ++ (y ++ q)) = afterPiece o taken y q := by
  induction hn : p.length using Nat.strong_induction_on generalizing before p with
  | h n ih =>
    rcases hp with rfl | ⟨p', hp'⟩
    · refine ⟨[], .inl rfl, fun _ => rfl, none, fun y q hy hq => ?_⟩
      have hgap : redactBasic before (y ++ q) = y ++ redactBasic (y.reverse ++ before) q :=
        replaceFrom_gap fun v w hvw hw => hy.run_nil hq hvw hw
      rw [List.nil_append, hgap, redactBasic_next hq]
      rfl
    · have hlast : p ≠ [] := by simp [hp']
      obtain ⟨u, p₁, rfl⟩ := List.exists_cons_of_ne_nil hlast
      have hnext : AtStart p₁ ∧ (p₁ = [] → u = 32) := by
        rcases p' with _ | ⟨v, p'⟩
        · obtain ⟨rfl, rfl⟩ : u = 32 ∧ p₁ = [] := by simpa using hp'
          exact ⟨.inl rfl, fun _ => rfl⟩
        · obtain ⟨rfl, rfl⟩ : u = v ∧ p₁ = p' ++ [32] := by simpa using hp'
          exact ⟨.inr ⟨p', rfl⟩, by simp⟩
      obtain ⟨o, hend, hnil, taken, ho⟩ := ih p₁.length (by simp [← hn]) (u :: before) p₁ hnext.1 rfl
      have hend' : ∃ o', u :: o = o' ++ [32] := by
        rcases hend with hp₁ | ⟨o', rfl⟩
        · exact ⟨[], by rw [hnil hp₁, hnext.2 hp₁]; rfl⟩
        · exact ⟨u :: o', rfl⟩
      have hmiss : ∀ y q, IsPiece y → SpaceNext q →
          run basicPattern ⟨before, (u :: p₁) ++ (y ++ q), []⟩ = [] →
          redactBasic before ((u :: p₁) ++ (y ++ q)) =
            afterPiece (u :: o) (taken.map (u :: ·)) y q := by
        intro y q hy hq hrun
        rw [List.cons_append] at hrun ⊢
        rw [redactBasic_miss hrun, ho y q hy hq]
        exact append_afterPiece [u] o taken y q
      have hcases := fun y q (hy : IsPiece y) (hq : SpaceNext q) =>
        mt (@basic_cases before (u :: p₁) y q ⟨p', hp'⟩ hy hq)
      by_cases hclosed : before.head?.any isWord = false ∧ ∃ spaces blob r,
          u :: p₁ = js "Basic" ++ (spaces ++ (blob ++ r)) ∧ spaces ≠ [] ∧
            (∀ u ∈ spaces, isSpace u = true) ∧ 8 ≤ blob.length ∧ (∀ u ∈ blob, isBase64 u = true) ∧
            r.head?.any isBase64 = false ∧ ∃ r', r = r' ++ [32]
      · obtain ⟨hbefore, spaces, blob, r, hpr, hne, hs, h8, hb, hr, hr'⟩ := hclosed
        have hlen : r.length < n := by
          rw [← hn, hpr, List.length_append, List.length_append, List.length_append]
          omega
        obtain ⟨o₂, hend₂, -, taken₂, ho₂⟩ := ih r.length hlen
          ((js "Basic" ++ (spaces ++ blob)).reverse ++ before) r (.inr hr') rfl
        refine ⟨js "[auth redacted]" ++ o₂, .inr ?_, by simp, taken₂.map (js "[auth redacted]" ++ ·),
          fun y q hy hq => ?_⟩
        · rcases hend₂ with rfl | ⟨o', rfl⟩
          · simp at hr'
          · exact ⟨js "[auth redacted]" ++ o', by simp⟩
        · have hsplit : (u :: p₁) ++ (y ++ q) =
              js "Basic" ++ (spaces ++ (blob ++ (r ++ (y ++ q)))) := by rw [hpr]; simp
          have hr₂ : (r ++ (y ++ q)).head?.any isBase64 = false := by
            obtain ⟨r', rfl⟩ := hr'
            cases r' <;> simpa using hr
          rw [hsplit, redactBasic_hit hbefore hne hs h8 hb hr₂, ho₂ y q hy hq, append_afterPiece]
      · by_cases hopen : before.head?.any isWord = false ∧ ∃ spaces, u :: p₁ = js "Basic" ++ spaces ∧
            spaces ≠ [] ∧ ∀ u ∈ spaces, isSpace u = true
        · obtain ⟨hbefore, spaces, hps, hne, hs⟩ := hopen
          refine ⟨u :: o, .inr hend', by simp, some [], fun y q hy hq => ?_⟩
          by_cases h8 : 8 ≤ y.length
          · rw [hps, List.append_assoc, redactBasic_hit hbefore hne hs h8 hy.base64 hq.base64,
              redactBasic_next hq, afterPiece, if_pos h8, List.nil_append]
          · have hrun : run basicPattern ⟨before, (u :: p₁) ++ (y ++ q), []⟩ = [] := by
              by_contra hne'
              refine hcases y q hy hq ?_ hne'
              rintro ⟨hb, ⟨_, _, _, _, h8'⟩ | hc⟩
              · exact h8 h8'
              · exact hclosed ⟨hb, hc⟩
            rw [hmiss y q hy hq hrun, afterPiece, if_neg h8]
            cases taken with
            | none => rfl
            | some o' => rw [Option.map_some, afterPiece, if_neg h8]
        · refine ⟨u :: o, .inr hend', by simp, taken.map (u :: ·), fun y q hy hq => ?_⟩
          refine hmiss y q hy hq ?_
          by_contra hne'
          refine hcases y q hy hq ?_ hne'
          rintro ⟨hb, ⟨spaces, hps, hne, hs, -⟩ | hc⟩
          · exact hopen ⟨hb, spaces, hps, hne, hs⟩
          · exact hclosed ⟨hb, hc⟩

/-! ## SIDs among tokens -/

def redactSids (t : JSString) : JSString := replaceAll sidPattern (js "[sid redacted]") t

theorem redactSids_split {u : CodeUnit} (hu : stops true (some u) sidPattern = true)
    (hw : isWord u = false) (a t : JSString) :
    redactSids (a ++ u :: t) = redactSids a ++ u :: redactSids t := by
  have hend : stops true none sidPattern = true := by decide
  rw [redactSids, replaceAll, replaceFrom_append_cons hu (reads_sid.consumes isSid_ne_nil)]
  have hflag : (u :: (a.reverse ++ [])).head?.any isWord = ([] : JSString).head?.any isWord := hw
  exact congrArg (fun x => redactSids a ++ u :: x) (replaceFrom_congr hend (fun _ => hflag) 0 t)

theorem redactSids_space (a t : JSString) :
    redactSids (a ++ 32 :: t) = redactSids a ++ 32 :: redactSids t :=
  redactSids_split (by decide) (by decide) a t

theorem redactSids_short {t : JSString} (h : t.length < 34) : redactSids t = t := by
  refine replaceAll_of_test ((reads_sid.finds.test_eq_false t).mpr ?_)
  rintro ⟨v, x, z, rfl, hx, -⟩
  have hlen := hx.length
  simp only [List.length_append] at h
  omega

theorem redactSids_sid {w : JSString} (h : IsSid w) : redactSids w = js "[sid redacted]" := by
  have hrun : run sidPattern ⟨[], w ++ [], []⟩ ≠ [] :=
    (reads_sid.finds _ _).mpr ⟨w, [], rfl, h, fun _ => rfl, fun _ => rfl⟩
  obtain ⟨e, l, he⟩ := List.exists_cons_of_ne_nil hrun
  obtain ⟨x, hx, hpass, -⟩ := (reads_sid _ e).mp (he ▸ List.mem_cons_self)
  have hrest : e.rest = [] := by
    have hlen := congrArg List.length hpass.1
    rw [List.append_nil, List.length_append, h.length, hx.length] at hlen
    exact List.eq_nil_of_length_eq_zero (by omega)
  have hhit : replaceFrom sidPattern (js "[sid redacted]") 0 [] (w ++ []) = js "[sid redacted]" ++
      replaceFrom sidPattern (js "[sid redacted]") 0 (w.reverse ++ []) [] :=
    replaceFrom_hit h.ne_nil (by rw [he, List.head?_cons]) hrest
  have hnil : run sidPattern ⟨w.reverse ++ [], [], []⟩ = [] := by
    by_contra hne
    obtain ⟨x, z, hxz, hx, -⟩ := (reads_sid.finds _ _).mp hne
    exact hx.ne_nil (List.append_eq_nil_iff.mp hxz.symm).1
  rw [replaceFrom_nil hnil, List.append_nil, List.append_nil] at hhit
  exact hhit

theorem redactSids_start {o : JSString} (ho : AtStart o) (y : JSString) :
    redactSids (o ++ y) = redactSids o ++ redactSids y := by
  rcases ho with rfl | ⟨o', rfl⟩
  · rfl
  · have hnil : redactSids [] = [] := redactSids_short (by decide)
    rw [List.append_assoc, List.singleton_append, redactSids_space, redactSids_space, hnil]
    simp

/-! ## Addresses and keys among tokens -/

def redactKeys (t : JSString) : JSString :=
  replaceAll apikeyPattern (js "apikey=REDACTED") (replaceAll urlPattern (js "[url redacted]") t)

def redactTokens (t : JSString) : JSString := redactSids (redactBasic [] t)

theorem withoutSids_eq (t : JSString) : withoutSids t = redactTokens (redactKeys t) := rfl

theorem redactKeys_space (a t : JSString) :
    redactKeys (a ++ 32 :: t) = redactKeys a ++ 32 :: redactKeys t := by
  have hurl : ∀ text, replaceAll urlPattern text (a ++ 32 :: t) =
      replaceAll urlPattern text a ++ 32 :: replaceAll urlPattern text t := by
    intro text
    have hstop : stops false (some 32) urlPattern = true := by decide
    have hend : stops false none urlPattern = true := by decide
    rw [replaceAll, replaceFrom_append_cons hstop consumes_url]
    exact congrArg (fun x => replaceAll urlPattern text a ++ 32 :: x)
      (replaceFrom_congr hend (by simp) 0 t)
  have hkey : ∀ text a t, replaceAll apikeyPattern text (a ++ 32 :: t) =
      replaceAll apikeyPattern text a ++ 32 :: replaceAll apikeyPattern text t := by
    intro text a t
    have hstop : stops false (some 32) apikeyPattern = true := by decide
    have hend : stops false none apikeyPattern = true := by decide
    rw [replaceAll, replaceFrom_append_cons hstop consumes_apikey]
    exact congrArg (fun x => replaceAll apikeyPattern text a ++ 32 :: x)
      (replaceFrom_congr hend (by simp) 0 t)
  rw [redactKeys, hurl, hkey]
  rfl

theorem redactKeys_word {w : JSString} (h58 : 58 ∉ w) (h61 : 61 ∉ w) : redactKeys w = w := by
  have hurl : test urlPattern w = false := by
    refine (finds_url.test_eq_false w).mpr ?_
    rintro ⟨v, x, z, rfl, ⟨a, b, rfl, -⟩, -⟩
    exact h58 (by simp [show js "://" = [58, 47, 47] by decide])
  have hkey : test apikeyPattern w = false := by
    refine (finds_apikey.test_eq_false w).mpr ?_
    rintro ⟨v, x, z, rfl, hx, -⟩
    obtain ⟨y, rfl, -⟩ := hx.split
    exact h61 (by simp)
  rw [redactKeys, replaceAll_of_test hurl, replaceAll_of_test hkey]

end Redactor

/-! ## Account SIDs in a body -/

namespace SmsService
open Redactor

def IsAccountSid (sid : JSString) : Prop :=
  ∃ x, sid = js "AC" ++ x ∧ x.length = 32 ∧ ∀ u ∈ x, isHexDigit u = true

namespace IsAccountSid
variable {sid : JSString}

theorem length (h : IsAccountSid sid) : sid.length = 34 := by
  obtain ⟨x, rfl, hlen, -⟩ := h
  rw [List.length_append, hlen]
  rfl

theorem units (h : IsAccountSid sid) : ∀ u ∈ sid, isHexDigit u = true := by
  obtain ⟨x, rfl, -, hx⟩ := h
  intro u hu
  rcases List.mem_append.mp hu with hu | hu
  · exact List.all_eq_true.mp (show (js "AC").all isHexDigit = true by decide) u hu
  · exact hx u hu

theorem isSid (h : IsAccountSid sid) : IsSid sid := by
  obtain ⟨x, rfl, hlen, hx⟩ := h
  refine ⟨js "AC", x, rfl, .inl (Folds.refl _), hlen, fun u hu => ?_⟩
  have hex := hx u hu
  simp [isHexDigit, isSidUnit, foldCase, isDigit, isUpper, isLower, UInt16.le_iff_toNat_le,
    UInt16.toNat_add, UInt16.toNat_sub] at hex ⊢
  omega

theorem piece (h : IsAccountSid sid) {k : ℕ} (hk : k ≠ 0) : IsPiece (sid.take k) := by
  have hunit : ∀ u ∈ sid.take k, isHexDigit u = true := fun u hu => h.units u (List.mem_of_mem_take hu)
  refine ⟨?_, fun u hu => ?_, fun hmem => ?_⟩
  · obtain ⟨x, rfl, -⟩ := h
    obtain ⟨k, rfl⟩ := Nat.exists_eq_succ_of_ne_zero hk
    simp [show js "AC" = [65, 67] by decide]
  · have hex := hunit u hu
    simp [isHexDigit, isBase64, isDigit, isUpper, isLower, UInt16.le_iff_toNat_le,
      ← UInt16.toNat_inj] at hex ⊢
    omega
  · exact absurd (hunit 115 hmem) (by decide)

theorem redactKeys (h : IsAccountSid sid) (k : ℕ) : redactKeys (sid.take k) = sid.take k := by
  have hunit : ∀ u ∈ sid.take k, isHexDigit u = true := fun u hu => h.units u (List.mem_of_mem_take hu)
  exact redactKeys_word (fun hmem => absurd (hunit 58 hmem) (by decide))
    fun hmem => absurd (hunit 61 hmem) (by decide)

end IsAccountSid

/-- A text as its tokens between single spaces; `none` stands for the account SID. -/
abbrev Template := List (Option JSString)

def spell (sid : JSString) : Template → JSString
  | [] => []
  | [t] => t.getD sid
  | t :: T => t.getD sid ++ 32 :: spell sid T

def lead (sid : JSString) : Template → JSString
  | [] => []
  | t :: T => t.getD sid ++ 32 :: lead sid T

/-- Where a cut after `n` units falls: the tokens before, the token that is cut, and how many units
of it may stay. -/
def cutAt (n : ℕ) : Template → Template × Option JSString × ℕ
  | [] => ([], some [], 0)
  | [t] => ([], t, n)
  | t :: u :: T =>
    if n ≤ t.elim 34 List.length then ([], t, n)
    else
      let c := cutAt (n - t.elim 34 List.length - 1) (u :: T)
      (t :: c.1, c.2)

theorem take_spell {sid : JSString} (hsid : sid.length = 34) (n : ℕ) (T : Template) :
    (spell sid T).take n = lead sid (cutAt n T).1 ++ ((cutAt n T).2.1.getD sid).take (cutAt n T).2.2 := by
  induction n, T using cutAt.induct with
  | case1 n => simp [spell, cutAt, lead]
  | case2 n t => simp [spell, cutAt, lead]
  | case3 n t u T h =>
    have hlen : n ≤ (t.getD sid).length := by cases t <;> simpa [hsid] using h
    rw [cutAt, if_pos h, spell, List.take_append_of_le_length hlen]
    · rfl
    · simp
  | case4 n t u T h ih =>
    have hlen : (t.getD sid).length = t.elim 34 List.length := by cases t <;> simp [hsid]
    have hlong : (t.getD sid).length < n := by omega
    obtain ⟨m, hm⟩ : ∃ m, n - (t.getD sid).length = m + 1 := ⟨n - (t.getD sid).length - 1, by omega⟩
    rw [cutAt, if_neg h, spell, List.take_append, List.take_of_length_le hlong.le, hm,
      List.take_succ_cons, show m = n - t.elim 34 List.length - 1 by omega, ih, lead]
    · simp
    · simp

theorem redactKeys_lead {sid : JSString} (h : IsAccountSid sid) (T : Template) (y : JSString) :
    redactKeys (lead sid T ++ y) = lead sid (T.map (Option.map redactKeys)) ++ redactKeys y := by
  have hsid : redactKeys sid = sid := by
    simpa [List.take_of_length_le h.length.le] using h.redactKeys 34
  induction T with
  | nil => rfl
  | cons t T ih =>
    rw [lead, List.append_assoc, List.cons_append, redactKeys_space, ih, List.map_cons, lead]
    cases t <;> simp [hsid]

theorem redactTokens_lead (T : Template) (p : JSString) (hp : AtStart p) : ∃ c p', AtStart p' ∧
    ∀ sid, IsAccountSid sid → ∀ y,
      redactTokens (p ++ (lead sid T ++ y)) = c ++ redactTokens (p' ++ y) := by
  induction T generalizing p with
  | nil => exact ⟨[], p, hp, fun _ _ _ => rfl⟩
  | cons t T ih =>
    cases t with
    | some w =>
      obtain ⟨c, p', hp', h⟩ := ih (p ++ (w ++ [32])) (.inr ⟨p ++ w, by simp⟩)
      refine ⟨c, p', hp', fun sid hsid y => ?_⟩
      rw [← h sid hsid y, lead]
      simp
    | none =>
      obtain ⟨c, p', hp', h⟩ := ih [] (.inl rfl)
      obtain ⟨o, hend, hnil, taken, ho⟩ := basic_piece [] p hp
      have hstart : AtStart o := hend.imp (fun hp => hnil hp) id
      have hrest : ∀ x X, redactSids (x ++ redactBasic [] (32 :: X)) =
          redactSids x ++ 32 :: redactTokens X := fun x X => by
        rw [redactBasic_space, redactSids_space]
        rfl
      have hlead : ∀ sid y, p ++ (lead sid (none :: T) ++ y) =
          p ++ (sid ++ 32 :: ([] ++ (lead sid T ++ y))) := fun sid y => by simp [lead]
      have hpiece : ∀ sid, IsAccountSid sid → IsPiece sid := fun sid hsid => by
        simpa [List.take_of_length_le hsid.length.le] using hsid.piece (k := 34) (by decide)
      have hlong : ∀ sid, IsAccountSid sid → 8 ≤ sid.length := fun sid hsid => by
        rw [hsid.length]
        decide
      cases taken with
      | some o' =>
        refine ⟨redactSids (o' ++ js "[auth redacted]") ++ 32 :: c, p', hp', fun sid hsid y => ?_⟩
        rw [hlead, redactTokens, ho sid _ (hpiece sid hsid) (.inr ⟨_, rfl⟩), afterPiece,
          if_pos (hlong sid hsid), ← List.append_assoc, hrest, h sid hsid y]
        simp
      | none =>
        refine ⟨redactSids o ++ (js "[sid redacted]" ++ 32 :: c), p', hp', fun sid hsid y => ?_⟩
        rw [hlead, redactTokens, ho sid _ (hpiece sid hsid) (.inr ⟨_, rfl⟩), afterPiece,
          redactSids_start hstart, hrest, redactSids_sid hsid.isSid, h sid hsid y]
        simp

theorem withoutSids_lead (T : Template) : ∃ c p, AtStart p ∧ ∀ sid, IsAccountSid sid → ∀ y,
    withoutSids (lead sid T ++ y) = c ++ redactTokens (p ++ redactKeys y) := by
  obtain ⟨c, p, hp, h⟩ := redactTokens_lead (T.map (Option.map redactKeys)) [] (.inl rfl)
  refine ⟨c, p, hp, fun sid hsid y => ?_⟩
  rw [withoutSids_eq, redactKeys_lead hsid, ← h sid hsid, List.nil_append]

theorem redactTokens_piece {p : JSString} (hp : AtStart p) : ∃ (taken : Bool) (o o' : JSString),
    ∀ y, IsPiece y → redactTokens (p ++ y) =
      if taken = true ∧ 8 ≤ y.length then redactSids o' ++ js "[auth redacted]"
      else o ++ redactSids y := by
  obtain ⟨o, hend, hnil, taken, ho⟩ := basic_piece [] p hp
  have hstart : AtStart o := hend.imp (fun hp => hnil hp) id
  have hpiece : ∀ y, IsPiece y → redactTokens (p ++ y) = redactSids (afterPiece o taken y []) := by
    intro y hy
    rw [redactTokens, ← ho y [] hy (.inl rfl), List.append_nil]
  have hauth : ∀ x, redactSids (x ++ js "[auth redacted]") = redactSids x ++ js "[auth redacted]" := by
    intro x
    have hshort : redactSids (js "auth redacted]") = js "auth redacted]" := redactSids_short (by decide)
    rw [show js "[auth redacted]" = 91 :: js "auth redacted]" by decide,
      redactSids_split (by decide) (by decide), hshort]
  cases taken with
  | none =>
    refine ⟨false, redactSids o, [], fun y hy => ?_⟩
    rw [hpiece y hy, afterPiece, redactBasic_nil, List.append_nil, redactSids_start hstart]
    simp
  | some o' =>
    refine ⟨true, redactSids o, o', fun y hy => ?_⟩
    rw [hpiece y hy, afterPiece, redactBasic_nil, List.append_nil, List.append_nil]
    by_cases h8 : 8 ≤ y.length
    · rw [if_pos h8, if_pos ⟨rfl, h8⟩, hauth]
    · rw [if_neg h8, if_neg (fun h => h8 h.2), redactSids_start hstart]

/-- Eight letters after this text would be taken for Basic credentials. -/
def TakenAsCredentials (p : JSString) : Prop :=
  (withoutSids (p ++ js "AAAAAAAA")).getLast? = some 93

def redactNumbers (t : JSString) : JSString := replaceAll numberPattern (js "[number redacted]") t

/-- What the cut after `n` units leaves of the SIDs reads the same, or nothing of it is left. -/
def CutAlike (n : ℕ) (T : Template) (sid₁ sid₂ : JSString) : Prop :=
  match cutAt n T with
  | (_, some _, _) => True
  | (T₀, none, k) => k < 34 → redactNumbers (sid₁.take k) = redactNumbers (sid₂.take k) ∨
      (8 ≤ k ∧ TakenAsCredentials (lead sid₁ T₀))

theorem cutAlike_iff {n k : ℕ} {T T₀ : Template} {sid₁ sid₂ : JSString} (h : cutAt n T = (T₀, none, k)) :
    CutAlike n T sid₁ sid₂ ↔ (k < 34 → redactNumbers (sid₁.take k) = redactNumbers (sid₂.take k) ∨
      (8 ≤ k ∧ TakenAsCredentials (lead sid₁ T₀))) := by
  rw [CutAlike, h]

theorem redactNumbers_letter (a r : JSString) :
    redactNumbers (a ++ 65 :: r) = redactNumbers a ++ redactNumbers (65 :: r) := by
  have hstop : stops false (some 65) numberPattern = true := by decide
  have hend : stops false none numberPattern = true := by decide
  have hc : Consumes numberPattern := reads_number.consumes isNumber_ne_nil
  have hsplit : ∀ a, redactNumbers (a ++ 65 :: r) = redactNumbers a ++ 65 :: redactNumbers r := by
    intro a
    rw [redactNumbers, replaceAll, replaceFrom_append_cons hstop hc]
    exact congrArg (fun x => redactNumbers a ++ 65 :: x) (replaceFrom_congr hend (by simp) 0 r)
  have hnil : redactNumbers [] = [] := by decide
  rw [hsplit a, show (65 : CodeUnit) :: r = [] ++ 65 :: r from rfl, hsplit [], hnil]
  rfl

theorem scrubText_take_iff {sid₁ sid₂ : JSString} (h₁ : IsAccountSid sid₁) (h₂ : IsAccountSid sid₂)
    (n : ℕ) (T : Template) : scrubText ((spell sid₁ T).take n) = scrubText ((spell sid₂ T).take n) ↔
      CutAlike n T sid₁ sid₂ := by
  rw [take_spell h₁.length, take_spell h₂.length, CutAlike]
  obtain ⟨T₀, t, k⟩ := cutAt n T
  obtain ⟨c, p, hp, hlead⟩ := withoutSids_lead T₀
  have hscrub : ∀ sid, IsAccountSid sid → ∀ y, scrubText (lead sid T₀ ++ y) =
      redactNumbers (c ++ redactTokens (p ++ redactKeys y)) := fun sid hsid y => by
    rw [scrubText_eq, hlead sid hsid]
    rfl
  rw [hscrub sid₁ h₁, hscrub sid₂ h₂]
  cases t with
  | some w => exact iff_of_true rfl trivial
  | none =>
    rw [Option.getD_none, Option.getD_none, h₁.redactKeys, h₂.redactKeys]
    by_cases hk0 : k = 0
    · exact iff_of_true (by simp [hk0]) fun _ => .inl (by simp [hk0])
    obtain ⟨taken, o, o', hpiece⟩ := redactTokens_piece hp
    by_cases hk : k < 34
    · have hbase : (js "AAAAAAAA").all isBase64 = true := by decide
      have hletters : IsPiece (js "AAAAAAAA") :=
        ⟨by decide, fun u hu => List.all_eq_true.mp hbase u hu, by decide⟩
      have hshort : redactSids (js "AAAAAAAA") = js "AAAAAAAA" := redactSids_short (by decide)
      have htaken : TakenAsCredentials (lead sid₁ T₀) ↔ taken = true := by
        rw [TakenAsCredentials, hlead sid₁ h₁, redactKeys_word (by decide) (by decide),
          hpiece _ hletters, hshort]
        cases taken with
        | true =>
          rw [if_pos ⟨rfl, by decide⟩, show js "[auth redacted]" = js "[auth redacted" ++ [93] by decide]
          simp
        | false =>
          rw [if_neg (by simp), show js "AAAAAAAA" = js "AAAAAAA" ++ [65] by decide]
          simp
      have hlen : ∀ sid, IsAccountSid sid → (sid.take k).length = k := fun sid hsid => by
        rw [List.length_take, hsid.length]
        omega
      have hkept : ∀ sid, IsAccountSid sid → redactTokens (p ++ sid.take k) =
          if taken = true ∧ 8 ≤ k then redactSids o' ++ js "[auth redacted]" else o ++ sid.take k := by
        intro sid hsid
        have hl := hlen sid hsid
        have hs : redactSids (sid.take k) = sid.take k := redactSids_short (by rw [hl]; exact hk)
        rw [hpiece _ (hsid.piece hk0), hl, hs]
      rw [hkept sid₁ h₁, hkept sid₂ h₂]
      by_cases h8 : taken = true ∧ 8 ≤ k
      · rw [if_pos h8, if_pos h8]
        exact iff_of_true rfl fun _ => .inr ⟨h8.2, htaken.mpr h8.1⟩
      · rw [if_neg h8, if_neg h8]
        have hnumbers : ∀ sid, IsAccountSid sid → redactNumbers (c ++ (o ++ sid.take k)) =
            redactNumbers (c ++ o) ++ redactNumbers (sid.take k) := by
          rintro sid ⟨x, rfl, -⟩
          obtain ⟨m, rfl⟩ := Nat.exists_eq_succ_of_ne_zero hk0
          rw [show js "AC" = [65, 67] by decide, ← List.append_assoc c]
          exact redactNumbers_letter (c ++ o) _
        rw [hnumbers sid₁ h₁, hnumbers sid₂ h₂, List.append_cancel_left_eq]
        constructor
        · exact fun h _ => .inl h
        · intro h
          rcases h hk with h | ⟨hlong, h⟩
          · exact h
          · exact absurd ⟨htaken.mp h, hlong⟩ h8
    · have hfull : ∀ sid, IsAccountSid sid → redactTokens (p ++ sid.take k) =
          if taken = true then redactSids o' ++ js "[auth redacted]" else o ++ js "[sid redacted]" := by
        intro sid hsid
        have hl : sid.length ≤ k := by
          rw [hsid.length]
          omega
        have htake : sid.take k = sid := List.take_of_length_le hl
        have h8 : 8 ≤ sid.length := by
          rw [hsid.length]
          decide
        rw [hpiece _ (hsid.piece hk0), htake, redactSids_sid hsid.isSid]
        simp [h8]
      rw [hfull sid₁ h₁, hfull sid₂ h₂]
      exact iff_of_true rfl fun hlt => absurd hlt hk

/-! ## The line of a refusal -/

/-- A send through a scoped key that gets this refusal as its answer. -/
structure Refuses (w : World) (response : Response) : Prop where
  live : w.store.secret .debugMode ≠ js "true"
  keys : ∀ k ∈ [Key.twilioSid, .twilioAuthToken, .twilioApiKeySid, .recipientNumber,
    .twilioFromNumber], Config.isMissing (w.store k) = false
  url : ∃ u, url (w.store.secret .twilioSid) = .ok u
  answer : ∀ r, w.env.fetch 0 r = .ok response
  refused : ¬ (200 ≤ response.code ∧ response.code < 300)

variable [Platform]

theorem logged_refusal {w : World} {code : ℕ} {body : JSString} (h : Refuses w ⟨code, body⟩)
    (hjson : Value.parse body = none) (text : JSString) :
    logged ((send text).run host w).performed =
      [(.error, js "Twilio send failed: HTTP " ++ decimal code ++ js ", code " ++ js "unknown" ++
        js ": " ++ scrubText (body.take maxErrorLogChars))] := by
  obtain ⟨u, hu⟩ := h.url
  have hsid := h.keys .twilioSid (by simp)
  have htoken := h.keys .twilioAuthToken (by simp)
  have hkey := h.keys .twilioApiKeySid (by simp)
  have hto := h.keys .recipientNumber (by simp)
  have hfrom := h.keys .twilioFromNumber (by simp)
  have hbody : parseErrorBody body = ⟨js "unknown", .str (body.take maxErrorLogChars)⟩ := by
    simp [parseErrorBody, hjson]
  have hcode : js "unknown" ≠ js "21610" := by decide
  have hscrub : scrub (.str (body.take maxErrorLogChars)) =
      .ok (scrubText (body.take maxErrorLogChars)) := rfl
  have hdeliver : ((deliver text).run host w).outcome = .ok .failed ∧
      logged ((deliver text).run host w).performed = [(.error, js "Twilio send failed: HTTP " ++
        decimal code ++ js ", code " ++ js "unknown" ++ js ": " ++
          scrubText (body.take maxErrorLogChars))] := by
    simp [deliver, Prog.run_bind, run_require, run_optional, hsid, htoken, hkey, hto, hfrom, hu,
      consoleIf, logged, run_fetch, h.answer, readResponse, h.refused, hbody, hcode, hscrub]
  rw [send, Prog.tryCatch_eq, Prog.run_catchWith]
  simp only [Prog.bind_eq, Prog.run_bind, run_isDebugMode, Result.andThen_ok, decide_eq_true_eq,
    if_neg h.live, hdeliver.1, Result.orElse_ok]
  rw [logged_append, hdeliver.2]
  rfl

/-- Two runs that are refused with bodies alike but for the account SID log the same exactly if the
cut leaves nothing of the SIDs that reads differently. -/
theorem refusal_alike_iff {T : Template} {sid₁ sid₂ text : JSString} {w₁ w₂ : World} {code : ℕ}
    (h₁ : IsAccountSid sid₁) (h₂ : IsAccountSid sid₂) (hw₁ : Refuses w₁ ⟨code, spell sid₁ T⟩)
    (hw₂ : Refuses w₂ ⟨code, spell sid₂ T⟩) (hjson₁ : Value.parse (spell sid₁ T) = none)
    (hjson₂ : Value.parse (spell sid₂ T) = none) :
    logged ((send text).run host w₁).performed = logged ((send text).run host w₂).performed ↔
      CutAlike maxErrorLogChars T sid₁ sid₂ := by
  rw [logged_refusal hw₁ hjson₁, logged_refusal hw₂ hjson₂, ← scrubText_take_iff h₁ h₂]
  simp

end SmsService

section Samples
open AppsScript SmsService

def letterSid (u : CodeUnit) : JSString := js "AC" ++ List.replicate 32 u

theorem isAccountSid_letter {u : CodeUnit} (hu : isHexDigit u = true) : IsAccountSid (letterSid u) :=
  ⟨_, rfl, List.length_replicate, fun _ hv => (List.eq_of_mem_replicate hv) ▸ hu⟩

def refusing (body : JSString) : World :=
  ⟨sampleStore.set .twilioApiKeySid (js "SK4567"), { sampleEnv with
    fetch := fun _ _ => .ok ⟨400, body⟩ }⟩

theorem refuses_refusing (body : JSString) : Refuses (refusing body) ⟨400, body⟩ := by
  have hlive : (sampleStore.set .twilioApiKeySid (js "SK4567")).secret .debugMode ≠ js "true" := by
    decide
  have hkeys : ∀ k ∈ [Key.twilioSid, .twilioAuthToken, .twilioApiKeySid, .recipientNumber,
      .twilioFromNumber],
      Config.isMissing (sampleStore.set .twilioApiKeySid (js "SK4567") k) = false := by decide
  refine ⟨hlive, hkeys, ?_, fun _ => rfl, fun h => absurd h.2 (by norm_num)⟩
  have hsid : encodeURIComponent ((refusing body).store.secret .twilioSid) = some (js "AC0123") := by
    have hsecret : (sampleStore.set .twilioApiKeySid (js "SK4567")).secret .twilioSid =
      js "AC0123" := by decide
    rw [show (refusing body).store.secret .twilioSid = js "AC0123" from hsecret]
    decide
  rw [SmsService.url, hsid]
  exact ⟨_, rfl⟩

theorem SmsService.refusal_alike_short :
    logged ((send (js "hi")).run host (refusing (spell (letterSid 97) [some (js "No"), none]))).performed =
      logged ((send (js "hi")).run host (refusing (spell (letterSid 98) [some (js "No"), none]))).performed ↔
      CutAlike maxErrorLogChars [some (js "No"), none] (letterSid 97) (letterSid 98) :=
  refusal_alike_iff (isAccountSid_letter (by decide)) (isAccountSid_letter (by decide))
    (refuses_refusing _) (refuses_refusing _)
    (Option.isNone_iff_eq_none.mp (by decide +kernel)) (Option.isNone_iff_eq_none.mp (by decide +kernel))

def filler : JSString := List.replicate 194 120

theorem filler_length : filler.length = 194 := List.length_replicate

def lateSid : Template := [some filler, none]

theorem cutAt_lateSid : cutAt maxErrorLogChars lateSid = ([some filler], none, 5) := by
  have hlen : ¬ maxErrorLogChars ≤ (some filler).elim 34 List.length := by
    rw [Option.elim_some, filler_length, maxErrorLogChars]
    omega
  rw [lateSid, cutAt, if_neg hlen, Option.elim_some, filler_length]
  rfl

/-- The cut leaves `ACaaa` of one SID and `ACbbb` of the other. -/
theorem SmsService.refusal_cut : ¬ ∀ (T : Template) (sid₁ sid₂ text : JSString) (w₁ w₂ : World)
    (code : ℕ), IsAccountSid sid₁ → IsAccountSid sid₂ → Refuses w₁ ⟨code, spell sid₁ T⟩ →
    Refuses w₂ ⟨code, spell sid₂ T⟩ → Value.parse (spell sid₁ T) = none →
    Value.parse (spell sid₂ T) = none →
    logged ((send text).run host w₁).performed = logged ((send text).run host w₂).performed := by
  intro h
  have ha := isAccountSid_letter (u := 97) (by decide)
  have hb := isAccountSid_letter (u := 98) (by decide)
  have hja : Value.parse (spell (letterSid 97) lateSid) = none :=
    Option.isNone_iff_eq_none.mp (by decide +kernel)
  have hjb : Value.parse (spell (letterSid 98) lateSid) = none :=
    Option.isNone_iff_eq_none.mp (by decide +kernel)
  have hwa := refuses_refusing (spell (letterSid 97) lateSid)
  have hwb := refuses_refusing (spell (letterSid 98) lateSid)
  have halike := h lateSid _ _ (js "hi") _ _ 400 ha hb hwa hwb hja hjb
  rw [refusal_alike_iff ha hb hwa hwb hja hjb, cutAlike_iff cutAt_lateSid] at halike
  rcases halike (by norm_num) with hkept | ⟨hlong, -⟩
  · have hdiff : redactNumbers ((letterSid 97).take 5) ≠ redactNumbers ((letterSid 98).take 5) := by
      decide +kernel
    exact hdiff hkept
  · exact absurd hlong (by decide)

end Samples
end Spazito
