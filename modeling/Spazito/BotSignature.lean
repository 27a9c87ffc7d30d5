import Spazito.BotBudget
import Spazito.BotDaily
import Spazito.VerifierHistory

set_option autoImplicit false

/-!
# From the daily run to the verifier

Whatever else the bot does at the same time, the texts that leave it are numbered in the order in which
the log has their claims, and the verifier says of them what the log says.
-/
namespace Spazito
open Ecma Script

/-! ## Numbers -/

def Change.isClaim : Change → Bool
  | .claim _ => true
  | _ => false

namespace Bot

variable {b b' : Bot}

theorem change_counter {c : Change} (h : b.change c = some b') :
    b'.counter = if c.isClaim then countUp b.counter else b.counter := by
  cases c with
  | add t | remove t | trip | record now sid | claim n =>
    rw [change] at h
    split_ifs at h
    cases h
    rfl
  | setPaused paused | countFailure | zeroFailures | reopen | audit entry =>
    cases h
    rfl

/-- The counter counts the claims, as far as a double can tell. -/
theorem after_counter {changes : List Change} (h : b.after changes = some b') :
    b'.counter = min (b.counter + changes.countP Change.isClaim) (2 ^ 53) := by
  induction changes using List.reverseRecOn generalizing b' with
  | nil =>
    cases h
    exact (Nat.min_eq_left b.counter_le).symm
  | append_singleton changes c ih =>
    obtain ⟨b₁, hb₁, hc⟩ := after_concat h
    rw [change_counter hc, ih hb₁, List.countP_append, List.countP_singleton]
    split_ifs
    · rw [countUp]
      omega
    · rfl

theorem after_claim {front rest : List Change} {n : ℕ}
    (h : b.after (front ++ .claim n :: rest) = some b') :
    n = min (b.counter + front.countP Change.isClaim + 1) (2 ^ 53) := by
  rw [after_append] at h
  obtain ⟨b₁, hb₁, h⟩ := Option.bind_eq_some_iff.mp h
  rw [after, List.foldlM_cons] at h
  obtain ⟨b₂, hclaim, -⟩ := Option.bind_eq_some_iff.mp h
  rw [change] at hclaim
  split_ifs at hclaim with hn
  rw [hn, after_counter hb₁, countUp]
  omega

end Bot

/-! ## On the page -/

namespace Verifier

variable [Platform] {page : Page} {key : JSString}

def Behind (page : Page) (n : ℕ) : Prop :=
  page.storedLastN = none ∨ ∃ last < n, page.storedLastN = some (decimal last)

theorem verify_signedText (hkey : trim page.secret = key) (hne : key ≠ []) {n : ℕ} (hn : n ≤ 2 ^ 53)
    (message : JSString) :
    (verify page (Signer.signedText key n message)).2.verdict = js "✅ Authentic" ∧
      (verify page (Signer.signedText key n message)).2.seq =
        some (checkSequence page.lastN (.finite n)) := by
  have hgenuine := genuine_signedText key hn message
  refine ⟨?_, verify_seq hkey hne hgenuine⟩
  obtain ⟨p, hp, hif⟩ := Option.bind_eq_some_iff.mp hgenuine
  split_ifs at hif with htag
  subst hkey
  exact ((verify_parsed hne hp).1 htag).2.2

theorem verify_stores (hkey : trim page.secret = key) (hne : key ≠ []) {n : ℕ} (hn : n < 2 ^ 53)
    (hbehind : Behind page n) (message : JSString) :
    (verify page (Signer.signedText key n message)).1.lastN = some (.finite n) := by
  have hstored : (verify page (Signer.signedText key n message)).1.storedLastN = some (decimal n) := by
    rw [(verify_page hkey hne _).2, genuine_signedText key hn.le message]
    rcases hbehind with hnone | ⟨last, hlast, hsome⟩
    · simp [Page.advance, Page.lastN, hnone, Number.toText_natCast n hn.le]
    · have hle : last ≤ 2 ^ 53 := (hlast.trans hn).le
      simp [Page.advance, Page.lastN, hsome, Number.parseInt_decimal last hle, lt_natCast, hlast,
        Number.toText_natCast n hn.le]
  simp [Page.lastN, hstored, Number.parseInt_decimal n hn.le]

end Verifier

section Pool

variable [Platform] {ι : Type} [DecidableEq ι] {s₀ : Store} {b₀ : Bot} {entry : ι → Entry}

omit [Platform] [DecidableEq ι] in
def claims (log : List (ι × Change)) : ℕ := log.countP fun x => x.2.isClaim

omit [Platform] [DecidableEq ι] in
theorem countP_snd (log : List (ι × Change)) : (log.map Prod.snd).countP Change.isClaim = claims log :=
  List.countP_map

omit [Platform] [DecidableEq ι] in
theorem claims_split (front rest : List (ι × Change)) (i : ι) (n : ℕ) :
    claims (front ++ (i, .claim n) :: rest) = claims front + claims rest + 1 := by
  rw [claims, List.countP_append, List.countP_cons]
  rfl

omit [Platform] [DecidableEq ι] in
theorem exists_two_claims {log : List (ι × Change)} (h : 2 ≤ claims log) :
    ∃ front mid rest i j n m, log = front ++ (i, .claim n) :: (mid ++ (j, .claim m) :: rest) := by
  have hclaim {c : Change} (hc : c.isClaim = true) : ∃ n, c = .claim n := by
    cases c with
    | claim n => exact ⟨n, rfl⟩
    | _ => cases hc
  obtain ⟨front, ⟨i, c⟩, mid, ⟨j, c'⟩, rest, hsplit, hc, hc'⟩ := Log.exists_split_two h
  obtain ⟨n, rfl⟩ := hclaim hc
  obtain ⟨m, rfl⟩ := hclaim hc'
  exact ⟨front, mid, rest, i, j, n, m, hsplit⟩

/-- What the page says of the text of one claim, after that of an earlier one: authentic, and following
it or behind a gap of so many claims; and the earlier text, pasted again, is a replay. -/
def Reported (key : JSString) (n m between : ℕ) : Prop :=
  ∀ (page : Verifier.Page) (x y : JSString), trim page.secret = key → Verifier.Behind page n →
    let first := Signer.signedText key n x
    let second := Signer.signedText key m y
    let seen := (Verifier.verify page first).1
    (Verifier.verify page first).2.verdict = js "✅ Authentic" ∧
      (Verifier.verify seen second).2.verdict = js "✅ Authentic" ∧
      (Verifier.verify seen second).2.seq = some (if between = 0 then .follows (.finite m) (.finite n)
        else .gap (.finite m) (.finite n) (.finite between)) ∧
      (Verifier.verify seen first).2.seq = some (.replay (.finite n))

omit [DecidableEq ι] in
theorem reported {key : JSString} (hne : key ≠ []) {n m between : ℕ} (hm : m = n + between + 1)
    (hlt : m < 2 ^ 53) : Reported key n m between := by
  intro page x y hkey hbehind first second seen
  have hn : n < 2 ^ 53 := by omega
  have hseen : seen.lastN = some (.finite n) := Verifier.verify_stores hkey hne hn hbehind x
  have hsecret : trim seen.secret = key := by
    rw [show seen.secret = page.secret from (Verifier.verify_page hkey hne first).1, hkey]
  obtain ⟨hfirst, -⟩ := Verifier.verify_signedText hkey hne hn.le x
  obtain ⟨hsecond, hseq⟩ := Verifier.verify_signedText hsecret hne hlt.le y
  obtain ⟨-, hagain⟩ := Verifier.verify_signedText hsecret hne hn.le x
  refine ⟨hfirst, hsecond, ?_, ?_⟩
  · rw [hseq, hseen, Verifier.checkSequence_natCast hn hlt, if_neg (by omega), if_neg (by omega)]
    cases between with
    | zero => rw [if_pos (by omega), if_pos rfl]
    | succ k =>
      rw [if_neg (by omega), if_neg (Nat.succ_ne_zero k), show m - n - 1 = k + 1 by omega]
  · rw [hagain, hseen, Verifier.checkSequence_natCast hn hn, if_pos rfl]

theorem Story.numbered {log : List (ι × Change)} {s : Store} (h : Story entry b₀ s₀ log s)
    (hkey : Config.isMissing (s₀ .verifierKey) = false) {front mid rest : List (ι × Change)} {i j : ι}
    {n m : ℕ} (hsplit : log = front ++ (i, .claim n) :: (mid ++ (j, .claim m) :: rest)) :
    i ≠ j ∧ (m < 2 ^ 53 →
      m = n + claims mid + 1 ∧ Reported (s₀.secret .verifierKey) n m (claims mid)) := by
  obtain ⟨b, hafter, -⟩ := h.state
  refine ⟨?_, fun hlt => ?_⟩
  · rintro rfl
    have hpermits := h.permitted (front ++ (i, .claim n) :: mid) i (.claim m) rest (by simp [hsplit])
    have hown : own i (front ++ (i, .claim n) :: mid) = [] := by
      cases hi : entry i with
      | runDailyAlert =>
        rw [hi] at hpermits
        exact hpermits.1
      | doPost e =>
        rw [hi] at hpermits
        exact hpermits.elim
    have hmem : Change.claim n ∈ own i (front ++ (i, .claim n) :: mid) := mem_own.mpr (by simp)
    rw [hown] at hmem
    cases hmem
  · have hearlier : b₀.after (front.map Prod.snd ++ .claim n ::
        (mid.map Prod.snd ++ .claim m :: rest.map Prod.snd)) = some b := by
      rw [← hafter, hsplit]
      simp
    have hlater : b₀.after ((front.map Prod.snd ++ .claim n :: mid.map Prod.snd) ++ .claim m ::
        rest.map Prod.snd) = some b := by
      rw [← hafter, hsplit]
      simp
    have hcount : (front.map Prod.snd ++ .claim n :: mid.map Prod.snd).countP Change.isClaim =
        claims front + (claims mid + 1) := by
      rw [List.countP_append, List.countP_cons, countP_snd, countP_snd]
      rfl
    have hfirst := Bot.after_claim hearlier
    have hsecond := Bot.after_claim hlater
    rw [countP_snd] at hfirst
    rw [hcount] at hsecond
    have hm : m = n + claims mid + 1 := by omega
    exact ⟨hm, reported (Store.secret_ne_nil hkey) hm hlt⟩

omit [Platform] in
theorem length_texts_le {ops : Trace}
    (hpost : ∀ r text, .op (.fetch r) ∈ ops → SmsService.Carries text r → r.method = .post) :
    (SmsService.texts ops).length ≤ (ops.map fun c => uses c .texts).sum := by
  induction ops with
  | nil => exact Nat.zero_le _
  | cons c ops ih =>
    have hrest := ih fun r text hmem => hpost r text (List.mem_cons_of_mem c hmem)
    have hone : (SmsService.texts [c]).length ≤ uses c .texts := by
      by_cases hnone : SmsService.texts [c] = []
      · simp [hnone]
      · obtain ⟨text, htext⟩ := List.exists_mem_of_ne_nil _ hnone
        obtain ⟨r, hr, hcarries⟩ := SmsService.mem_texts htext
        obtain rfl := List.mem_singleton.mp hr
        have hlength : (SmsService.texts [.op (.fetch r)]).length ≤ 1 := List.length_filterMap_le _ _
        rwa [uses, if_pos (hpost r text List.mem_cons_self hcarries)]
    have happend : SmsService.texts (c :: ops) = SmsService.texts [c] ++ SmsService.texts ops :=
      List.filterMap_append (l := [c])
    rw [happend, List.length_append, List.map_cons, List.sum_cons]
    omega

theorem History.daily_requests {h : List (Event GAS ι × List Change)} {t : List (Event GAS ι)}
    {p : Pool GAS JSError (Option JSString) ι Store} (hh : History entry b₀ s₀ t h p) {i : ι}
    (hi : entry i = .runDailyAlert) {r : Request} {a : Except JSError Response}
    (hmem : .op i (.fetch r) a ∈ t) :
    (∃ ticker, Tickers.Canonical ticker ∧ PriceRequest s₀ ticker r) ∨ ∃ text, TextRequest s₀ text r := by
  obtain ⟨front, made, rest, q, q', -, hq, hmove, -⟩ := hh.moment hmem
  cases hmove with
  | op at_op _ => exact Watched.asks_fetch hq.watched hi at_op

theorem History.one_text {h : List (Event GAS ι × List Change)} {t : List (Event GAS ι)}
    {p : Pool GAS JSError (Option JSString) ι Store} (hh : History entry b₀ s₀ t h p) {i : ι}
    (hi : entry i = .runDailyAlert) : (textsOf i t).length ≤ 1 := by
  have hfollows := hh.chronicle.course.follows i
  rw [hh.events] at hfollows
  have hcost := (costs_program (entry i) .texts).follows hfollows
  rw [show (entry i).allowance .texts = 1 by rw [hi]; rfl] at hcost
  refine (length_texts_le fun r text hr hcarries => ?_).trans hcost
  obtain ⟨j, o, a, hown, hop⟩ := mem_opsIn.mp hr
  cases hop
  obtain ⟨hmem, hj⟩ := Pool.mem_ownEvents.mp hown
  rcases hh.daily_requests hi ((show j = i from hj) ▸ hmem) with
    ⟨ticker, -, url, hurl, rfl⟩ | ⟨text', url, -, rfl⟩
  · exact absurd (PriceService.url_host hurl) (PriceService.not_asks_of_carries hcarries)
  · rfl

/-- **From the daily run to the verifier.** In every run, a daily run asks the network for the prices of
canonical tickers and for one text at most: the line over its own quotes, signed with the number that
its own claim has in the log, or bare if its wait for the lock was in vain. Claims are those of different
executions, numbered in the order of the log; and of the texts of two claims the verifier says that the
second follows the first, or how many claims are missing in between. -/
theorem pool_signed (h₀ : b₀.Represents s₀) (hkey : Config.isMissing (s₀ .verifierKey) = false)
    {t : List (Event GAS ι)} {p : Pool GAS JSError (Option JSString) ι Store}
    (hrun : Pool.Course (storeEffect True) (botStart entry s₀) t p) :
    ∃ h, History entry b₀ s₀ t h p ∧
      (∀ i, entry i = .runDailyAlert →
        (∀ r a, .op i (.fetch r) a ∈ t → (∃ ticker, Tickers.Canonical ticker ∧ PriceRequest s₀ ticker r) ∨
          ∃ text ∈ textsOf i t, TextRequest s₀ text r) ∧
        (textsOf i t).length ≤ 1 ∧
        ∀ text ∈ textsOf i t, DailyText s₀ (Pool.ownEvents i t) (own i (logOf h)) text) ∧
      ∀ front mid rest i j n m, logOf h = front ++ (i, .claim n) :: (mid ++ (j, .claim m) :: rest) →
        i ≠ j ∧ (m < 2 ^ 53 →
          m = n + claims mid + 1 ∧ Reported (s₀.secret .verifierKey) n m (claims mid)) := by
  obtain ⟨h, hh⟩ := exists_history h₀ hrun
  refine ⟨h, hh, fun i hi => ⟨fun r a hmem => ?_, hh.one_text hi, fun text hmem => hh.dailyText hi hmem⟩,
    fun front mid rest i j n m hsplit => hh.story.numbered hkey hsplit⟩
  rcases hh.daily_requests hi hmem with hprice | ⟨text, htext⟩
  · exact .inl hprice
  · exact .inr ⟨text, mem_textsOf.mpr ⟨r, a, hmem, htext.carries⟩, htext⟩

end Pool
section
open AppsScript

/-- Daily runs one after another, of which the last finds the lock busy. -/
def threeDailyRuns (_ : Option Bool) : Entry := .runDailyAlert

def dailyTurns : List (Option Bool × Bool) :=
  List.replicate 70 (some true, true) ++ List.replicate 70 (some false, true) ++
    List.replicate 70 (none, false)

def dailyPool : Pool GAS JSError (Option JSString) (Option Bool) Store :=
  dailyTurns.foldl (Pool.play sampleAnswer) (botStart threeDailyRuns sampleStore)

def dailyEvents : List (Event GAS (Option Bool)) :=
  Pool.eventsOf sampleAnswer (botStart threeDailyRuns sampleStore) dailyTurns

theorem course_dailyPool :
    Pool.Course (storeEffect True) (botStart threeDailyRuns sampleStore) dailyEvents dailyPool :=
  Pool.course_play storeEffect_sampleAnswer dailyTurns

theorem pool_signed_three_runs : ∃ h,
    History threeDailyRuns .initial sampleStore dailyEvents h dailyPool ∧
      (∀ i, ∃ text, textsOf i dailyEvents = [text] ∧
        DailyText sampleStore (Pool.ownEvents i dailyEvents) (own i (logOf h)) text) ∧
      ∃ front mid rest i j n m, logOf h = front ++ (i, .claim n) :: (mid ++ (j, .claim m) :: rest) ∧
        i ≠ j ∧ m = n + claims mid + 1 ∧ Reported (sampleStore.secret .verifierKey) n m (claims mid) := by
  have hkey : Config.isMissing (sampleStore .verifierKey) = false := by decide
  obtain ⟨h, hh, hdaily, hclaims⟩ :=
    pool_signed (Bot.represents_initial installed_sampleStore) hkey course_dailyPool
  refine ⟨h, hh, fun i => ?_, ?_⟩
  · have hlength : ∀ i, (textsOf i dailyEvents).length = 1 := by decide +kernel
    obtain ⟨text, htext⟩ := List.length_eq_one_iff.mp (hlength i)
    exact ⟨text, htext, (hdaily i rfl).2.2 text (htext ▸ List.mem_singleton_self text)⟩
  · obtain ⟨b, hafter, hrep⟩ := hh.story.state
    have hstored : SecurityVault.countOf (dailyPool.data .secMsgCount) = .finite 2 := by decide +kernel
    have hcounter : b.counter = 2 := by
      rw [hrep.countOf] at hstored
      exact_mod_cast Number.finite.inj hstored
    have hcount := Bot.after_counter hafter
    rw [hcounter, countP_snd, show Bot.initial.counter = 0 from rfl] at hcount
    have htwo : claims (logOf h) = 2 := by omega
    obtain ⟨front, mid, rest, i, j, n, m, hsplit⟩ := exists_two_claims htwo.ge
    obtain ⟨hij, hreported⟩ := hclaims front mid rest i j n m hsplit
    have hlater : Bot.initial.after ((front.map Prod.snd ++ .claim n :: mid.map Prod.snd) ++ .claim m ::
        rest.map Prod.snd) = some b := by
      rw [← hafter, hsplit]
      simp
    have hm := Bot.after_claim hlater
    have hfew : (front.map Prod.snd ++ .claim n :: mid.map Prod.snd).countP Change.isClaim ≤ 2 := by
      rw [List.countP_append, List.countP_cons, countP_snd, countP_snd]
      rw [hsplit, claims_split, claims_split] at htwo
      simp only [Change.isClaim, ↓reduceIte]
      omega
    rw [show Bot.initial.counter = 0 from rfl] at hm
    exact ⟨front, mid, rest, i, j, n, m, hsplit, hij, hreported (by omega)⟩

end
end Spazito
