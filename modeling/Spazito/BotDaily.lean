import Spazito.BotPool
import Spazito.SignerPool

set_option autoImplicit false

/-!
# The daily run, along its events

What a daily run has gone through when it sends its text: the tickers that it has read, the quotes that
its price calls gave, and the number that it has claimed or the lock that it has waited for in vain.
-/
namespace Spazito
open Ecma Script

variable {ι : Type} {t front back : List (Event GAS ι)} {α β : Type} {text : JSString}

/-! ## Along the program -/

def Still (t : List (Event GAS ι)) : Prop := ∀ i o r, .op i o r ∈ t → ¬ Wrote o r

theorem Still.append (h : Still front) (h' : Still back) : Still (front ++ back) := by
  intro i o r hmem
  rcases List.mem_append.mp hmem with hmem | hmem
  · exact h i o r hmem
  · exact h' i o r hmem

theorem still_follows {F : Footprint} {p q : Action α} (hF : ∀ k, ¬ F.writes k) (hp : p.Within F.allows)
    (h : p.Follows t q) : Still t := by
  intro i o r hmem
  cases o with
  | setProperty k v =>
    have hallows := hp.follows h (.op (.setProperty k v)) (mem_opsIn.mpr ⟨i, _, r, hmem, rfl⟩)
    exact absurd hallows (hF k)
  | _ => exact id

theorem texts_append (t u : List (Event GAS ι)) : SmsService.texts (opsIn (t ++ u)) =
    SmsService.texts (opsIn t) ++ SmsService.texts (opsIn u) := by
  rw [opsIn_append]
  exact List.filterMap_append

theorem texts_follows {F : Footprint} {p q : Action α} (hF : ∀ r, F.fetches r → PriceService.Asks r)
    (hp : p.Within F.allows) (h : p.Follows t q) : SmsService.texts (opsIn t) = [] := by
  refine List.eq_nil_iff_forall_not_mem.mpr fun text hmem => ?_
  obtain ⟨r, hr, hcarries⟩ := SmsService.mem_texts hmem
  exact PriceService.not_asks_of_carries hcarries (hF r (hp.follows h _ hr))

theorem texts_readOnly {p q : Action α} (hp : p.Within Footprint.readOnly.allows) (h : p.Follows t q) :
    SmsService.texts (opsIn t) = [] :=
  texts_follows (F := Footprint.readOnly) (fun _ hf => hf.elim) hp h

theorem still_readOnly {p q : Action α} (hp : p.Within Footprint.readOnly.allows) (h : p.Follows t q) :
    Still t :=
  still_follows (F := Footprint.readOnly) (fun _ => id) hp h

theorem follows_past {F : Footprint} {p : Action α} {f : α → Action β} {q : Action β}
    (hF : ∀ r, F.fetches r → PriceService.Asks r) (hp : p.Within F.allows)
    (h : (p.bind f).Follows t q) (hmem : text ∈ SmsService.texts (opsIn t)) :
    ∃ a front back, t = front ++ back ∧ p.Follows front (.ret a) ∧ (f a).Follows back q ∧
      text ∈ SmsService.texts (opsIn back) := by
  rcases h.of_bind with ⟨p', hp', -⟩ | ⟨a, front, back, rfl, hfront, hback⟩
  · rw [texts_follows hF hp hp'] at hmem
    cases hmem
  · rw [texts_append, texts_follows hF hp hfront] at hmem
    exact ⟨a, front, back, rfl, hfront, hback, hmem⟩

theorem follows_past_still {p : Action α} {f : α → Action β} {q : Action β}
    (hp : p.Within (⟨fun _ => True, fun _ => False, PriceService.Asks⟩ : Footprint).allows)
    (h : (p.bind f).Follows t q) (hmem : text ∈ SmsService.texts (opsIn t)) :
    ∃ a front back, t = front ++ back ∧ Still front ∧ p.Follows front (.ret a) ∧ (f a).Follows back q ∧
      text ∈ SmsService.texts (opsIn back) := by
  obtain ⟨a, front, back, rfl, hfront, hback, hrest⟩ := follows_past (fun _ => id) hp h hmem
  exact ⟨a, front, back, rfl, still_follows (fun _ => id) hp hfront, hfront, hback, hrest⟩

theorem follows_isDebugMode {b : Bool} (h : Config.isDebugMode.Follows t (.ret b)) :
    ∃ i r, .op i (.getProperty .debugMode) r ∈ t ∧ (b = true ↔ trim (r.getD []) = js "true") := by
  rcases h.of_op with ⟨-, hq⟩ | ⟨i, r, rest, rfl, hrest⟩
  · cases hq
  · obtain ⟨-, hb⟩ := hrest.of_ret
    cases hb
    exact ⟨i, r, List.mem_cons_self, decide_eq_true_iff.trans (isDebugMode_value r)⟩

/-- A number that was claimed, with the read and the write of the counter, or none and a busy lock. -/
def Numbered (t : List (Event GAS ι)) : Option Number → Prop
  | none => (∃ i, .timedOut i ∈ t) ∧ Still t
  | some n => ∃ i j raw, n = Signer.nextNumber raw ∧ .op i (.getProperty .secMsgCount) raw ∈ t ∧
      .op j (.setProperty .secMsgCount n.toText) (.ok ()) ∈ t

theorem numbered_nextSequence {number : Option Number}
    (h : SecurityVault.nextSequence.Follows t (.ret number)) : Numbered t number := by
  rcases h.of_waitLock with ⟨-, hq⟩ | ⟨i, t₁, ⟨rfl, hbody⟩ | ⟨rfl, hbusy⟩⟩
  · cases hq
  · rcases hbody.of_op with ⟨-, hq⟩ | ⟨j, raw, t₂, rfl, hwrite⟩
    · cases hq
    · rcases hwrite.of_op with ⟨-, hq⟩ | ⟨l, x, t₃, rfl, hrelease⟩
      · cases hq
      · rcases x with e | u
        · rcases hrelease.of_releaseLock with ⟨-, hq⟩ | ⟨m, t₄, rfl, hraised⟩
          · cases hq
          · cases hraised.of_raise.2
        · rcases hrelease.of_releaseLock with ⟨-, hq⟩ | ⟨m, t₄, rfl, hdone⟩
          · cases hq
          · cases hdone.of_ret.2
            exact ⟨j, l, raw, rfl, .tail _ (.head _), .tail _ (.tail _ (.head _))⟩
  · rcases hbusy.of_op with ⟨-, hq⟩ | ⟨j, x, t₂, rfl, hdone⟩
    · cases hq
    · obtain ⟨rfl, hq⟩ := hdone.of_ret
      cases hq
      refine ⟨⟨i, List.mem_cons_self⟩, fun l o r hmem => ?_⟩
      obtain hmem | hmem := List.mem_cons.mp hmem
      · cases hmem
      · cases List.mem_singleton.mp hmem
        exact id

theorem numbered_claim {number : Option Number} (h : Signer.claim.Follows t (.ret number)) :
    ∃ i r, .op i (.getProperty .debugMode) r ∈ t ∧
      (trim (r.getD []) ≠ js "true" → Numbered t number) := by
  obtain ⟨debug, front, back, rfl, hdebug, hrest⟩ := h.of_bind_ret
  obtain ⟨i, r, hmem, hiff⟩ := follows_isDebugMode hdebug
  refine ⟨i, r, List.mem_append_left _ hmem, fun hno => ?_⟩
  cases debug with
  | true => exact absurd (hiff.mp rfl) hno
  | false =>
    have hfront : Still front := still_readOnly (Footprint.isDebugMode trivial) hdebug
    have hback := numbered_nextSequence hrest
    cases number with
    | none =>
      obtain ⟨⟨j, hj⟩, hstill⟩ := hback
      exact ⟨⟨j, List.mem_append_right _ hj⟩, hfront.append hstill⟩
    | some n =>
      obtain ⟨j, l, raw, hn, hread, hwrite⟩ := hback
      exact ⟨j, l, raw, hn, List.mem_append_right _ hread, List.mem_append_right _ hwrite⟩

variable [Platform]

/-- The text for this number, with a key that was read, or the bare line. -/
def SignedWith (t : List (Event GAS ι)) (line text : JSString) : Option Number → Prop
  | none => text = trim line
  | some n => ∃ i key, .op i (.getProperty .verifierKey) key ∈ t ∧ text = Signer.textFor key n line

theorem signedWith_finish {line signed : JSString} {number : Option Number}
    (h : (Signer.finish line number).Follows t (.ret signed)) : SignedWith t line signed number := by
  cases number with
  | none =>
    obtain ⟨_, front, back, rfl, -, hback⟩ := h.of_bind_ret
    cases hback.of_ret.2
    rfl
  | some n =>
    obtain ⟨tag, front, back, rfl, htag, hback⟩ := h.of_bind_ret
    cases hback.of_ret.2
    obtain ⟨secret, front, back', rfl, hrequire, hret⟩ := htag.of_bind_ret
    cases hret.of_ret.2
    rcases hrequire.of_op with ⟨-, hq⟩ | ⟨i, key, t₁, rfl, hvalue⟩
    · cases hq
    · have hif : ((if Config.isMissing key = true then .raise (Config.missingError [.verifierKey])
          else .ret (trim (key.getD []))) : Action JSString).Follows t₁ (.ret secret) := hvalue
      split_ifs at hif
      · cases hif.of_raise.2
      · cases hif.of_ret.2
        exact ⟨i, key, by simp, rfl⟩

theorem follows_send {signed : JSString} {q : Action SmsService.Outcome}
    (h : (SmsService.send signed).Follows t q) (hmem : text ∈ SmsService.texts (opsIn t)) :
    text = signed ∧ ∃ i r, .op i (.getProperty .debugMode) r ∈ t ∧ trim (r.getD []) ≠ js "true" := by
  have hconsole {α : Type} (level : Level) (text : JSString) (a : α) :
      ((console level text).bind fun _ => (.ret a : Action α)).Within Footprint.readOnly.allows :=
    (Footprint.console _ _).bind fun _ => trivial
  have hbody {t : List (Event GAS ι)} {q : Action SmsService.Outcome}
      (h : (Config.isDebugMode.bind fun debug => if debug then
        (console .log (js "DEBUG_MODE — SMS not sent. Message: " ++ signed)).bind fun _ => .ret .debug
        else SmsService.deliver signed).Follows t q) (hmem : text ∈ SmsService.texts (opsIn t)) :
      ∃ i r, .op i (.getProperty .debugMode) r ∈ t ∧ trim (r.getD []) ≠ js "true" := by
    obtain ⟨debug, front, back, rfl, hdebug, hrest, hback⟩ := follows_past (F := Footprint.readOnly)
      (fun _ hf => hf.elim) (Footprint.isDebugMode trivial) h hmem
    obtain ⟨i, r, hr, hiff⟩ := follows_isDebugMode hdebug
    refine ⟨i, r, List.mem_append_left _ hr, fun htrue => ?_⟩
    rw [if_pos (hiff.mpr htrue)] at hrest
    rw [texts_readOnly (hconsole _ _ _) hrest] at hback
    cases hback
  refine ⟨?_, ?_⟩
  · obtain ⟨r, hr, hcarries⟩ := SmsService.mem_texts hmem
    have hallows := (SmsService.within_send (F := ⟨fun _ => True, fun _ => True, SmsService.Carries signed⟩)
      (fun _ _ => trivial) fun _ h => h).follows h _ hr
    exact Option.some.inj (hcarries.2.symm.trans hallows.2)
  · rcases h.of_catchWith with ⟨p', hp', -⟩ | ⟨e, front, back, rfl, hfront, hback⟩
    · exact hbody hp' hmem
    · rw [texts_append, texts_readOnly (hconsole _ _ _) hback, List.append_nil] at hmem
      obtain ⟨i, r, hr, hno⟩ := hbody hfront hmem
      exact ⟨i, r, List.mem_append_left _ hr, hno⟩

omit [Platform] in
theorem Numbered.within {number : Option Number} {claiming : List (Event GAS ι)}
    (h : Numbered claiming number) (hfront : Still front) (hback : Still back) :
    Numbered (front ++ (claiming ++ back)) number := by
  have hmem {x : Event GAS ι} (hx : x ∈ claiming) : x ∈ front ++ (claiming ++ back) :=
    List.mem_append_right _ (List.mem_append_left _ hx)
  cases number with
  | none =>
    obtain ⟨⟨i, hi⟩, hstill⟩ := h
    exact ⟨⟨i, hmem hi⟩, hfront.append (hstill.append hback)⟩
  | some n =>
    obtain ⟨i, j, raw, hn, hread, hwrite⟩ := h
    exact ⟨i, j, raw, hn, hmem hread, hmem hwrite⟩

theorem SignedWith.mono {line : JSString} {number : Option Number} (h : SignedWith front line text number)
    (hsub : front ⊆ t) : SignedWith t line text number := by
  cases number with
  | none => exact h
  | some n =>
    obtain ⟨i, key, hmem, htext⟩ := h
    exact ⟨i, key, hsub hmem, htext⟩

/-- The line over the quotes that its price calls gave, at the end of these events, for the tickers that
it has read before. -/
def Lined (front : List (Event GAS ι)) (line : JSString) : Prop :=
  ∃ before reading asking tickers quotes, front = before ++ (reading ++ asking) ∧
    Watchlist.tickers.Follows reading (.ret tickers) ∧
    (PriceService.quotesFor tickers).Follows asking (.ret quotes) ∧
    Formatter.summaryLine (quotes.map PriceService.Quote.toValue) = .ok line

/-- The text of a line, with a number that was claimed after it. -/
def Composed (t : List (Event GAS ι)) (text : JSString) : Prop :=
  ∃ front rest line number, t = front ++ rest ∧ Lined front line ∧ Numbered t number ∧
    SignedWith t line text number

theorem Composed.append (h : Composed front text) (hback : Still back) : Composed (front ++ back) text := by
  obtain ⟨lined, rest, line, number, rfl, hline, hnumber, hsigned⟩ := h
  refine ⟨lined, rest ++ back, line, number, List.append_assoc .., hline, ?_,
    hsigned.mono (List.subset_append_left _ _)⟩
  have hnil : Still ([] : List (Event GAS ι)) := fun _ _ _ hmem => absurd hmem List.not_mem_nil
  exact hnumber.within hnil hback

theorem composed_dailyRun {q : Action Unit} {d : Option JSString} (h : Scheduler.dailyRun.Follows t q)
    (hmem : text ∈ SmsService.texts (opsIn t))
    (hdebug : ∀ i r, .op i (.getProperty .debugMode) r ∈ t → r = d) : Composed t text := by
  obtain ⟨-, t₁, u₁, rfl, s₁, -, h₁, m₁⟩ :=
    follows_past_still (Footprint.validate fun _ _ => trivial) h hmem
  obtain ⟨paused, t₂, u₂, rfl, s₂, -, h₂, m₂⟩ :=
    follows_past_still (Watchlist.within_isPaused trivial) h₁ m₁
  cases paused with
  | true =>
    have hlog : (console .log (js "Alerts are paused — daily run skipped, nothing sent.")).Within
        Footprint.readOnly.allows := Footprint.console _ _
    rw [texts_readOnly hlog h₂] at m₂
    cases m₂
  | false =>
    obtain ⟨tickers, t₃, u₃, rfl, s₃, hreading, h₃, m₃⟩ :=
      follows_past_still (Watchlist.within_tickers trivial) h₂ m₂
    obtain ⟨quotes, t₄, u₄, rfl, s₄, hasking, h₄, m₄⟩ :=
      follows_past_still (PriceService.within_quotesFor tickers trivial fun _ => id) h₃ m₃
    obtain ⟨-, t₅, u₅, rfl, s₅, -, h₅, m₅⟩ := follows_past_still (Footprint.consoleIf _ _ _) h₄ m₄
    obtain ⟨line, t₆, u₆, rfl, s₆, heval, h₆, m₆⟩ := follows_past_still (Footprint.eval _) h₅ m₅
    obtain ⟨signed, t₇, u₇, rfl, hsign, h₇, m₇⟩ := follows_past
      (F := ⟨fun _ => True, fun _ => True, fun _ => False⟩) (fun _ hf => hf.elim)
      (Signer.within_sign (fun _ _ => trivial) trivial) h₆ m₆
    have hline : Formatter.summaryLine (quotes.map PriceService.Quote.toValue) = .ok line := by
      generalize Formatter.summaryLine (quotes.map PriceService.Quote.toValue) = x at heval
      cases x with
      | ok message =>
        cases heval.of_ret.2
        rfl
      | error e => cases heval.of_raise.2
    rw [Signer.sign_claim] at hsign
    obtain ⟨number, claiming, finishing, rfl, hclaim, hfinish⟩ := hsign.of_bind_ret
    obtain ⟨q', hsend⟩ := h₇.of_map
    obtain ⟨rfl, i, r, hr, hno⟩ := follows_send hsend m₇
    obtain ⟨j, r', hr', hnumber⟩ := numbered_claim hclaim
    have hsame : r' = r := (hdebug j r' (by simp [hr'])).trans (hdebug i r (by simp [hr])).symm
    have s₇ : Still finishing := still_readOnly (Signer.within_finish line number) hfinish
    have s₈ : Still u₇ := still_follows (F := ⟨fun _ => True, fun _ => False, fun _ => True⟩)
      (fun _ => id) (SmsService.within_send (fun _ _ => trivial) fun _ _ => trivial) hsend
    have hclaimed := (hnumber (hsame ▸ hno)).within
      (s₁.append (s₂.append (s₃.append (s₄.append (s₅.append s₆))))) (s₇.append s₈)
    refine ⟨t₁ ++ (t₂ ++ (t₃ ++ t₄)), t₅ ++ (t₆ ++ (claiming ++ finishing ++ u₇)), line, number,
      by simp, ⟨t₁ ++ t₂, t₃, t₄, tickers, quotes, by simp, hreading, hasking, hline⟩, ?_,
      (signedWith_finish hfinish).mono fun x hx => by simp [hx]⟩
    simpa using hclaimed

theorem composed_program {q : Action (Option JSString)} {d : Option JSString}
    (h : Entry.runDailyAlert.program.Follows t q) (hmem : text ∈ SmsService.texts (opsIn t))
    (hdebug : ∀ i r, .op i (.getProperty .debugMode) r ∈ t → r = d) : Composed t text := by
  obtain ⟨q', hrun⟩ := h.of_map
  rcases hrun.of_catchWith with ⟨p', hp', -⟩ | ⟨e, front, back, rfl, hfront, hback⟩
  · exact composed_dailyRun hp' hmem hdebug
  · have hnone : SmsService.texts (opsIn back) = [] := by
      refine texts_readOnly ?_ hback
      exact (Footprint.console _ _).bind fun _ => trivial
    have hstill : Still back := by
      refine still_readOnly ?_ hback
      exact (Footprint.console _ _).bind fun _ => trivial
    rw [texts_append, hnone, List.append_nil] at hmem
    exact (composed_dailyRun hfront hmem fun i r hr => hdebug i r (List.mem_append_left _ hr)).append hstill

/-! ## In the history of a run -/

section History

variable [DecidableEq ι] {s₀ : Store} {b₀ : Bot} {entry : ι → Entry} {i : ι}
  {h : List (Event GAS ι × List Change)} {p : Pool GAS JSError (Option JSString) ι Store}

theorem Story.own_daily {log : List (ι × Change)} {s : Store} (hs : Story entry b₀ s₀ log s)
    (hi : entry i = .runDailyAlert) : own i log = [] ∨ ∃ n, own i log = [.claim n] := by
  have hpermits (past : List Change) (c : Change) (later : List Change)
      (hown : own i log = past ++ c :: later) : past = [] ∧ ∃ n, c = .claim n := by
    obtain ⟨front, rest, hlog, rfl⟩ := own_split hown
    have hpermits := hs.permitted front i c rest hlog
    rw [hi] at hpermits
    exact hpermits
  generalize own i log = past at hpermits
  rcases past with _ | ⟨c, _ | ⟨c', later⟩⟩
  · exact .inl rfl
  · obtain ⟨-, n, rfl⟩ := hpermits [] c [] rfl
    exact .inr ⟨n, rfl⟩
  · obtain ⟨hnil, -⟩ := hpermits [c] c' later rfl
    cases hnil

theorem History.read (hh : History entry b₀ s₀ t h p) {k : Key} {r : Option JSString}
    (hmem : .op i (.getProperty k) r ∈ t) : ∃ s, (botGuard s₀ entry).inv s ∧ r = s k := by
  obtain ⟨front, made, rest, q, q', -, hq, hmove, -⟩ := hh.moment hmem
  cases hmove with
  | op at_op effect => exact ⟨q.data, hq.watched.sound, effect.1⟩

theorem History.read_deployed (hh : History entry b₀ s₀ t h p) {k : Key} (hk : k ∉ ownKeys)
    {r : Option JSString} (hmem : .op i (.getProperty k) r ∈ t) : r = s₀ k := by
  obtain ⟨s, hs, rfl⟩ := hh.read hmem
  exact hs.1 k hk

theorem History.nextNumber (hh : History entry b₀ s₀ t h p) {raw : Option JSString}
    (hmem : .op i (.getProperty .secMsgCount) raw ∈ t) :
    ∃ n : ℕ, n ≤ 2 ^ 53 ∧ Signer.nextNumber raw = .finite n := by
  obtain ⟨s, ⟨-, b, hb⟩, rfl⟩ := hh.read hmem
  refine ⟨countUp b.counter, countUp_le _, ?_⟩
  rw [Signer.nextNumber, hb.countOf, add_one_countUp b.counter_le]

theorem History.own_still (hh : History entry b₀ s₀ t h p) (hstill : Still (Pool.ownEvents i t)) :
    own i (logOf h) = [] := by
  refine List.eq_nil_iff_forall_not_mem.mpr fun c hc => ?_
  obtain ⟨x, made, hx, rfl, hmade⟩ := mem_logOf.mp (mem_own.mp hc)
  obtain ⟨front, rest, hsplit⟩ := List.append_of_mem hx
  obtain ⟨q, q', -, -, hmakes, -⟩ := (hsplit ▸ hh.chronicle).moment
  have hchanges := hmakes.changes (List.ne_nil_of_mem hmade)
  have hmem : x ∈ Pool.ownEvents x.tid t :=
    Pool.mem_ownEvents.mpr ⟨hh.events ▸ List.mem_map_of_mem hx, rfl⟩
  cases x with
  | op i o r => exact hstill i o r hmem hchanges
  | acquired i | timedOut i | released i => exact hchanges

theorem History.own_claim (hh : History entry b₀ s₀ t h p) (hi : entry i = .runDailyAlert) {n : ℕ}
    (hn : n ≤ 2 ^ 53)
    (hmem : .op i (.setProperty .secMsgCount (Number.finite n).toText) (.ok ()) ∈ t) :
    own i (logOf h) = [.claim n] := by
  obtain ⟨front, made, rest, q, q', rfl, hq, hmove, hmakes⟩ := hh.moment hmem
  obtain ⟨c, rfl, hpermits, hdoes⟩ := hmakes.exists_change trivial
  have hpermits : Permits s₀ (entry i) (own i (logOf front)) c := hpermits
  rw [hi] at hpermits
  obtain ⟨-, m, rfl⟩ := hpermits
  obtain ⟨-, b, hb⟩ := hq.watched.sound
  obtain ⟨b', hchange, hb'⟩ := hdoes b hb
  have hcounter : b'.counter = m := by
    rw [Bot.change] at hchange
    split_ifs at hchange with hm
    cases hchange
    exact hm.symm
  have hdata : q'.data = q.data.set .secMsgCount (Number.finite n).toText := by
    cases hmove with
    | op at_op effect =>
      obtain ⟨-, hd⟩ | ⟨-, ⟨e, he⟩, -⟩ := effect
      · exact hd
      · cases he
  have hcount := hb'.countOf
  rw [hdata, Store.set_self, Number.toText_natCast n hn, SecurityVault.countOf_decimal hn, hcounter]
    at hcount
  obtain rfl : n = m := by exact_mod_cast Number.finite.inj hcount
  have hclaimed : Change.claim n ∈ own i (logOf (front ++
      (.op i (.setProperty .secMsgCount (Number.finite n).toText) (.ok ()), [.claim n]) :: rest)) :=
    mem_own.mpr (mem_logOf.mpr ⟨_, _, List.mem_append_right _ List.mem_cons_self, rfl, by simp⟩)
  rcases hh.story.own_daily hi with hnil | ⟨m, hm⟩
  · rw [hnil] at hclaimed
    cases hclaimed
  · rw [hm] at hclaimed
    cases List.mem_singleton.mp hclaimed
    exact hm

/-- The text of a daily run with these events and changes: the line over the quotes that its own price
calls gave for the tickers that it has read, signed with the number that it has claimed, or bare if it
has waited for the lock in vain. -/
def DailyText (s₀ : Store) (t : List (Event GAS ι)) (past : List Change) (text : JSString) : Prop :=
  ∃ front rest line, t = front ++ rest ∧ Lined front line ∧
    (past = [] ∧ (∃ i, .timedOut i ∈ t) ∧ text = trim line ∨
      ∃ n, n ≤ 2 ^ 53 ∧ past = [.claim n] ∧ text = Signer.signedText (s₀.secret .verifierKey) n line)

theorem History.dailyText (hh : History entry b₀ s₀ t h p) (hi : entry i = .runDailyAlert)
    (hmem : text ∈ textsOf i t) : DailyText s₀ (Pool.ownEvents i t) (own i (logOf h)) text := by
  have hfollows := hh.chronicle.course.follows i
  rw [hh.events, show (Pool.start _ s₀).thread i = (entry i).program from rfl, hi] at hfollows
  have hown {x : Event GAS ι} (hx : x ∈ Pool.ownEvents i t) : x ∈ t ∧ x.tid = i := Pool.mem_ownEvents.mp hx
  obtain ⟨front, rest, line, number, ht, hline, hnumber, hsigned⟩ :=
    composed_program hfollows hmem fun j r hr => hh.read_deployed (by decide) (hown hr).1
  refine ⟨front, rest, line, ht, hline, ?_⟩
  cases number with
  | none => exact .inl ⟨hh.own_still hnumber.2, hnumber.1, hsigned⟩
  | some n =>
    obtain ⟨j, l, raw, rfl, hread, hwrite⟩ := hnumber
    obtain ⟨m, key, hkey, htext⟩ := hsigned
    obtain ⟨n, hn, hnext⟩ := hh.nextNumber (hown hread).1
    obtain rfl := hh.read_deployed (by decide) (hown hkey).1
    obtain ⟨hwritten, hl⟩ := hown hwrite
    have hl : l = i := hl
    subst hl
    rw [hnext] at hwritten htext
    refine .inr ⟨n, hn, hh.own_claim hi hn hwritten, ?_⟩
    rw [htext, Signer.textFor_eq hn]
    rfl

end History
end Spazito
