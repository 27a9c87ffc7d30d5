import Spazito.Scheduler
import Spazito.ScriptBudget

set_option autoImplicit false

/-!
# What the shell may use up

Calls of the platform, property writes, milliseconds of waiting, price requests and texts: function by
function, at any price for each, whatever the platform answers.
-/
namespace Spazito
open Ecma Script

inductive Resource
  | calls | writes | lockMs | sleepMs | quotes | texts
  deriving DecidableEq

/-- A GET asks for a price, a POST sends a text. -/
def uses : Cmd GAS → Resource → ℕ
  | _, .calls => 1
  | .op (.setProperty _ _), .writes => 1
  | .waitLock timeoutMs, .lockMs => timeoutMs
  | .op (.sleep ms), .sleepMs => ms
  | .op (.fetch r), .quotes => if r.method = .get then 1 else 0
  | .op (.fetch r), .texts => if r.method = .post then 1 else 0
  | _, _ => 0

/-- What these amounts come to where one unit of `r` costs `T r`. -/
def worth (T amount : Resource → ℕ) : ℕ :=
  T .calls * amount .calls + T .writes * amount .writes + T .lockMs * amount .lockMs +
    T .sleepMs * amount .sleepMs + T .quotes * amount .quotes + T .texts * amount .texts

theorem worth_single (r : Resource) (amount : Resource → ℕ) :
    worth (Pi.single r 1) amount = amount r := by
  cases r <;> simp [worth]

abbrev price (T : Resource → ℕ) (c : Cmd GAS) : ℕ := worth T (uses c)

section Calls

variable {T : Resource → ℕ} {α : Type}

/-- All that the program can spend, at these prices. -/
abbrev Spends (T : Resource → ℕ) (p : Action α) (n : ℕ) : Prop := p.Costs (price T) n

theorem spends_op (o : Op) : Spends T (Prog.op (S := GAS) o) (price T (.op o)) :=
  (Prog.affords_perform (m := 0) fun r => Prog.costs_ret r).le (add_zero _).le

theorem spends_getProperty (k : Key) : Spends T (getProperty k) (T .calls) :=
  (spends_op _).le (by simp [worth, uses])

theorem spends_setProperty (k : Key) (v : JSString) :
    Spends T (setProperty k v) (T .calls + T .writes) :=
  ((spends_op (.setProperty k v)).bind fun _ => Prog.costs_orRaise _ (n := 0)).le
    (by simp [worth, uses])

theorem spends_fetch (r : Request) :
    Spends T (fetch r) (T .calls + if r.method = .get then T .quotes else T .texts) := by
  refine ((spends_op (.fetch r)).bind fun _ => Prog.costs_orRaise _ (n := 0)).le ?_
  cases h : r.method <;> simp [worth, uses, h]

theorem spends_sleep (ms : ℕ) : Spends T (sleep ms) (T .calls + T .sleepMs * ms) :=
  (spends_op _).le (by simp [worth, uses])

theorem spends_now : Spends T now (T .calls) := (spends_op _).le (by simp [worth, uses])

theorem spends_console (level : Level) (text : JSString) : Spends T (console level text) (T .calls) :=
  (spends_op _).le (by simp [worth, uses])

theorem spends_consoleIf (c : Prop) [Decidable c] (level : Level) (text : JSString) :
    Spends T (consoleIf c level text) (T .calls) := by
  unfold consoleIf
  split_ifs
  · exact spends_console _ _
  · exact Prog.costs_ret _

theorem spends_eval [Platform] {β : Type} {n : ℕ} {x : Except Fault α} {f : α → Action β}
    (hf : ∀ a, Spends T (f a) n) : Spends T ((eval x).bind f) n := by
  cases x with
  | ok a => exact hf a
  | error f => exact Prog.costs_raise _

theorem spends_require (k : Key) : Spends T (Config.require k) (T .calls) := by
  refine ((spends_getProperty k).bind (m := 0) fun value => ?_).le (add_zero _).le
  dsimp only
  split_ifs
  · exact Prog.costs_raise _
  · exact Prog.costs_ret _

theorem spends_optional (k : Key) : Spends T (Config.optional k) (T .calls) :=
  (spends_getProperty k).map _

theorem spends_isDebugMode : Spends T Config.isDebugMode (T .calls) :=
  (spends_optional _).map _

theorem spends_missing (keys : List Key) :
    Spends T (Config.missing keys) (keys.length * T .calls) := by
  induction keys with
  | nil => exact Prog.costs_ret _
  | cons key keys ih =>
    refine ((spends_getProperty key).bind fun value => ih.map _).le ?_
    rw [List.length_cons, Nat.succ_mul]
    omega

theorem spends_validate (keys : List Key) :
    Spends T (Config.validate keys) (keys.length * T .calls) := by
  refine ((spends_missing keys).bind (m := 0) fun absent => ?_).le (add_zero _).le
  split_ifs
  · exact Prog.costs_raise _
  · exact Prog.costs_ret _

theorem spends_withScriptLock (timeoutMs n : ℕ) {mutate onBusy : Action α}
    (hmutate : Spends T mutate n) (hbusy : Spends T onBusy n) :
    Spends T (Locks.withScriptLock timeoutMs mutate onBusy)
      (n + 2 * T .calls + T .lockMs * timeoutMs) := by
  have hwait : Spends T (waitLock timeoutMs) (T .calls + T .lockMs * timeoutMs) :=
    (Prog.affords_perform (m := 0) fun r => Prog.costs_ret r).le (by simp [worth, uses])
  have hrelease : Spends T releaseLock (T .calls) :=
    (Prog.affords_perform (m := 0) fun r => Prog.costs_ret r).le (by simp [worth, uses])
  refine (hwait.bind (m := n + T .calls) fun granted => ?_).le (by omega)
  cases granted with
  | true => exact hmutate.andFinally hrelease
  | false => exact ((spends_console _ _).bind fun _ => hbusy).le (by omega)

end Calls

/-! ## The vault -/

namespace SecurityVault

variable {T : Resource → ℕ}

theorem spends_currentSequence : Spends T currentSequence (T .calls) :=
  (spends_getProperty _).map _

theorem spends_nextSequence :
    Spends T nextSequence (4 * T .calls + T .writes + 5000 * T .lockMs) := by
  have hbody := (spends_currentSequence (T := T)).bind fun n =>
    (spends_setProperty .secMsgCount (Number.add n (.finite 1)).toText).map fun _ =>
      some (Number.add n (.finite 1))
  refine (spends_withScriptLock 5000 _ hbody (Prog.costs_ret _)).le ?_
  omega

variable [Platform]

omit [Platform] in
theorem spends_readJson (key : Key) : Spends T (readJson key) (2 * T .calls) := by
  refine ((spends_getProperty key).bind (m := T .calls) fun raw => ?_).le (by omega)
  cases raw with
  | none => exact Prog.costs_ret _
  | some raw =>
    dsimp only
    split
    · exact Prog.costs_ret _
    · exact Prog.costs_ret _
    · exact (spends_console _ _).map _

theorem spends_hashSender (sender : Option JSString) : Spends T (hashSender sender) (T .calls) :=
  (spends_require _).map _

theorem spends_appendAudit (kind : JSString) (sender : Option JSString) :
    Spends T (appendAudit kind sender) (5 * T .calls + T .writes) :=
  ((spends_readJson _).bind fun _ => spends_now.bind fun _ => (spends_hashSender sender).bind fun _ =>
    spends_setProperty _ _).le (by omega)

theorem spends_recordAudit (kind : JSString) (sender : Option JSString) :
    Spends T (recordAudit kind sender) (7 * T .calls + T .writes + 5000 * T .lockMs) := by
  refine (spends_withScriptLock 5000 _ (spends_appendAudit kind sender)
    (Prog.costs_ret _)).le ?_
  omega

omit [Platform] in
theorem spends_recentAudit (count : ℕ) : Spends T (recentAudit count) (2 * T .calls) :=
  (spends_readJson _).map _

theorem spends_checkAndRecordSid (sid : Value) :
    Spends T (checkAndRecordSid sid) (6 * T .calls + T .writes + 5000 * T .lockMs) := by
  unfold checkAndRecordSid
  split
  · split_ifs
    · exact Prog.costs_ret _
    · refine (spends_withScriptLock 5000 (4 * T .calls + T .writes) ?_
        (Prog.costs_ret _)).le (by omega)
      refine (spends_now.bind fun now => (spends_readJson .secSeenSids).bind fun seen =>
        spends_eval (n := T .calls + T .writes) fun fresh => spends_eval fun found => ?_).le (by omega)
      split_ifs
      · exact Prog.costs_ret _
      · exact (spends_setProperty _ _).map _
  · exact Prog.costs_ret _

omit [Platform] in
theorem spends_isSealed : Spends T isSealed (T .calls) := (spends_getProperty _).map _

omit [Platform] in
theorem spends_reachesSeal (failures : Number) : Spends T (reachesSeal failures) (T .calls) := by
  unfold reachesSeal
  split_ifs
  · exact spends_isSealed.map _
  · exact Prog.costs_ret _

theorem spends_registerFailure (sender : Option JSString) :
    Spends T (registerFailure sender) (17 * T .calls + 4 * T .writes + 5000 * T .lockMs) := by
  refine (spends_withScriptLock 5000 (15 * T .calls + 4 * T .writes) ?_
    ((spends_isSealed.map _).le (by omega))).le (by omega)
  refine ((spends_getProperty _).bind fun count => (spends_setProperty _ _).bind fun _ =>
    (spends_appendAudit _ _).bind fun _ => (spends_reachesSeal _).bind
      (m := 7 * T .calls + 2 * T .writes) fun reached => ?_).le (by omega)
  split_ifs
  · exact ((spends_setProperty _ _).bind fun _ => (spends_appendAudit _ _).bind fun _ =>
      (spends_console _ _).map _).le (by omega)
  · exact (spends_isSealed.map _).le (by omega)

omit [Platform] in
theorem spends_resetFailures :
    Spends T resetFailures (4 * T .calls + T .writes + 5000 * T .lockMs) := by
  refine ((spends_getProperty _).bind
    (m := 3 * T .calls + T .writes + 5000 * T .lockMs) fun count => ?_).le (by omega)
  split_ifs
  · exact Prog.costs_ret _
  · refine (spends_withScriptLock 5000 _ (spends_setProperty _ _)
      (Prog.costs_ret _)).le (by omega)

theorem spends_unsealBot (sender : Option JSString) :
    Spends T (unsealBot sender) (9 * T .calls + 3 * T .writes + 5000 * T .lockMs) := by
  refine (spends_withScriptLock 5000 (7 * T .calls + 3 * T .writes) ?_
    (((spends_console _ _).map _).le (by omega))).le (by omega)
  exact ((spends_setProperty _ _).bind fun _ => (spends_setProperty _ _).bind fun _ =>
    (spends_appendAudit _ _).map _).le (by omega)

end SecurityVault

/-! ## The watchlist -/

namespace Watchlist

variable {T : Resource → ℕ}

theorem spends_isPaused : Spends T isPaused (T .calls) := (spends_getProperty _).map _

theorem spends_withLock {n : ℕ} {mutate : Action Outcome} (h : Spends T mutate n) :
    Spends T (withLock mutate) (n + 2 * T .calls + 5000 * T .lockMs) :=
  (spends_withScriptLock 5000 _ h (Prog.costs_ret _)).le (by omega)

theorem spends_setPaused (paused : Bool) :
    Spends T (setPaused paused) (3 * T .calls + T .writes + 5000 * T .lockMs) :=
  (spends_withLock ((spends_setProperty _ _).map _)).le (by omega)

variable [Platform]

theorem spends_tickers : Spends T tickers (3 * T .calls) := by
  have hcorrupted : ∀ message raw, Spends T (corrupted message raw) (2 * T .calls) :=
    fun _ _ => ((spends_console _ _).map _).le (by omega)
  refine ((spends_getProperty _).bind (m := 2 * T .calls) fun raw => ?_).le (by omega)
  cases raw with
  | none => exact Prog.costs_ret _
  | some raw =>
    dsimp only
    split
    · exact hcorrupted _ _
    · exact (spends_eval fun _ => (spends_consoleIf _ _ _).bind fun _ =>
        (spends_consoleIf _ _ _).map _).le (by omega)
    · exact hcorrupted _ _

theorem spends_has (rawTicker : Value) : Spends T (has rawTicker) (3 * T .calls) :=
  (spends_tickers.bind fun _ => spends_eval (n := 0) fun _ => Prog.costs_ret _).le (by omega)

theorem spends_isFull : Spends T isFull (3 * T .calls) := spends_tickers.map _

omit [Platform] in
theorem spends_store (tickerList : List JSString) :
    Spends T (store tickerList) (T .calls + T .writes) := spends_setProperty _ _

theorem spends_add (rawTicker : Value) :
    Spends T (add rawTicker) (6 * T .calls + T .writes + 5000 * T .lockMs) := by
  refine spends_eval fun ticker => spends_eval fun valid => ?_
  split_ifs
  · exact Prog.costs_ret _
  · refine (spends_withLock (spends_tickers.bind (m := T .calls + T .writes) fun current => ?_)).le
      (by omega)
    dsimp only
    split_ifs
    · exact Prog.costs_ret _
    · exact Prog.costs_ret _
    · exact (spends_store _).map _

theorem spends_remove (rawTicker : Value) :
    Spends T (remove rawTicker) (6 * T .calls + T .writes + 5000 * T .lockMs) := by
  refine spends_eval fun ticker => ?_
  refine (spends_withLock (spends_tickers.bind (m := T .calls + T .writes) fun current => ?_)).le
    (by omega)
  dsimp only
  split_ifs
  · exact Prog.costs_ret _
  · exact (spends_store _).map _

end Watchlist

/-! ## Prices and texts -/

namespace PriceService

variable {T : Resource → ℕ} [Platform]

theorem spends_readBody (ticker : JSString) (body : Value) :
    Spends T (readBody ticker body) (T .calls) := by
  refine spends_eval fun limit => ?_
  cases limit with
  | some key => exact (spends_console _ _).map _
  | none =>
    refine spends_eval fun rejected => ?_
    split_ifs
    · exact spends_eval fun _ => (spends_console _ _).map _
    · refine spends_eval fun quote => spends_eval fun price => ?_
      split_ifs
      · exact (spends_console _ _).map _
      · refine spends_eval fun number => ?_
        split_ifs
        · exact (spends_console _ _).map _
        · exact spends_eval fun _ => ((spends_console _ _).bind fun _ =>
            spends_eval (n := 0) fun _ => Prog.costs_ret _).le (by omega)

theorem spends_quote (ticker apiKey : JSString) :
    Spends T (quote ticker apiKey) (3 * T .calls + T .quotes) := by
  refine Prog.Affords.le (Prog.Costs.catchWith (n := 2 * T .calls + T .quotes) ?_ fun e =>
    (spends_console _ _).map _) (by omega)
  refine spends_eval fun u => ((spends_fetch _).bind (m := T .calls) fun response => ?_).le ?_
  · split_ifs
    · exact (spends_console _ _).map _
    · split
      · exact Prog.costs_raise _
      · exact spends_readBody _ _
  · rw [if_pos rfl]
    omega

omit [Platform] in
theorem spends_spaceCalls (first : Bool) : Spends T (spaceCalls first)
    (if first then 0 else T .calls + 15000 * T .sleepMs) := by
  cases first with
  | true => exact Prog.costs_ret _
  | false =>
    refine (spends_sleep _).le ?_
    rw [minCallSpacingMs]
    simp only [Bool.false_eq_true, if_false]
    omega

/-- What a ticker costs after the first. -/
def furtherTicker (T : Resource → ℕ) : ℕ := 4 * T .calls + T .quotes + 15000 * T .sleepMs

theorem spends_quotesLoop (apiKey : JSString) (tickers : List JSString) :
    Spends T (quotesLoop apiKey false tickers) (tickers.length * furtherTicker T + T .calls) := by
  induction tickers with
  | nil => exact Prog.costs_ret _
  | cons ticker rest ih =>
    refine ((spends_spaceCalls false).bind fun _ => (spends_quote ticker apiKey).bind
      (m := rest.length * furtherTicker T + T .calls) fun q => ?_).le ?_
    · split_ifs
      · exact ((spends_console _ _).map _).le le_add_self
      · exact ih.map _
    · rw [List.length_cons, Nat.succ_mul rest.length, if_neg Bool.false_ne_true]
      unfold furtherTicker
      omega

theorem spends_quotesLoop_first (apiKey ticker : JSString) (rest : List JSString) :
    Spends T (quotesLoop apiKey true (ticker :: rest))
      (3 * T .calls + T .quotes + rest.length * furtherTicker T + T .calls) := by
  refine ((spends_spaceCalls true).bind fun _ => (spends_quote ticker apiKey).bind
    (m := rest.length * furtherTicker T + T .calls) fun q => ?_).le ?_
  · split_ifs
    · exact ((spends_console _ _).map _).le le_add_self
    · exact (spends_quotesLoop apiKey rest).map _
  · rw [if_pos rfl]
    omega

theorem spends_quotesFor (tickers : List JSString) : Spends T (quotesFor tickers)
    (6 * T .calls + T .quotes + (min tickers.length 10 - 1) * furtherTicker T) := by
  unfold quotesFor
  split_ifs with hempty
  · exact Prog.costs_ret _
  · refine ((spends_consoleIf _ _ _).bind fun _ => (spends_require _).bind
      (m := 4 * T .calls + T .quotes + (min tickers.length 10 - 1) * furtherTicker T)
      fun apiKey => ?_).le (by omega)
    obtain ⟨ticker, rest, rfl⟩ := List.exists_cons_of_ne_nil hempty
    have hrest : (rest.take 9).length = min (ticker :: rest).length 10 - 1 := by
      rw [List.length_take, List.length_cons]
      omega
    rw [← hrest]
    exact (spends_quotesLoop_first apiKey ticker (rest.take 9)).le (by omega)

end PriceService

namespace SmsService

variable {T : Resource → ℕ} [Platform]

theorem spends_readResponse (response : Response) :
    Spends T (readResponse response) (T .calls) := by
  unfold readResponse
  split_ifs
  · split
    · exact Prog.costs_raise _
    · exact spends_eval fun _ => (spends_console _ _).map _
  · dsimp only
    split_ifs
    · exact (spends_console _ _).map _
    · exact spends_eval fun _ => (spends_console _ _).map _

theorem spends_deliver (message : JSString) :
    Spends T (deliver message) (8 * T .calls + T .texts) := by
  refine ((spends_require _).bind fun accountSid => (spends_require _).bind fun authSecret =>
    (spends_optional _).bind (m := 5 * T .calls + T .texts) fun apiKeySid => ?_).le (by omega)
  refine ((spends_consoleIf (apiKeySid = none) _ _).bind (m := 4 * T .calls + T .texts)
    fun _ => spends_eval fun u => ?_).le (by omega)
  refine ((spends_require _).bind fun recipient => (spends_require _).bind
    (m := 2 * T .calls + T .texts) fun number => ?_).le (by omega)
  refine ((spends_fetch _).bind fun response => spends_readResponse response).le ?_
  rw [if_neg nofun]
  omega

theorem spends_send (message : JSString) : Spends T (send message) (10 * T .calls + T .texts) := by
  refine Prog.Affords.le (Prog.Costs.catchWith (n := 9 * T .calls + T .texts) ?_ fun e =>
    (spends_console _ _).map _) (by omega)
  refine (spends_isDebugMode.bind (m := 8 * T .calls + T .texts) fun debug => ?_).le (by omega)
  split_ifs
  · exact ((spends_console _ _).map _).le (by omega)
  · exact spends_deliver message

end SmsService

namespace Signer

variable {T : Resource → ℕ}

theorem spends_claim : Spends T claim (5 * T .calls + T .writes + 5000 * T .lockMs) := by
  refine (spends_isDebugMode.bind (m := 4 * T .calls + T .writes + 5000 * T .lockMs)
    fun debug => ?_).le (by omega)
  split_ifs
  · exact (SecurityVault.spends_currentSequence.map _).le (by omega)
  · exact SecurityVault.spends_nextSequence

variable [Platform]

theorem spends_sign (message : JSString) :
    Spends T (sign message) (6 * T .calls + T .writes + 5000 * T .lockMs) := by
  refine (spends_claim.bind (m := T .calls) fun sequence => ?_).le (by omega)
  cases sequence with
  | none => exact (spends_console _ _).map _
  | some n => exact ((spends_require _).map _).map _

end Signer

namespace Scheduler

variable {T : Resource → ℕ} [Platform]

theorem spends_dailyRun : Spends T dailyRun (69 * T .calls + T .writes + 5000 * T .lockMs +
    135000 * T .sleepMs + 10 * T .quotes + T .texts) := by
  refine ((spends_validate Config.alertKeys).bind fun _ => Watchlist.spends_isPaused.bind
    (m := 62 * T .calls + T .writes + 5000 * T .lockMs + 135000 * T .sleepMs + 10 * T .quotes +
      T .texts) fun paused => ?_).le ?_
  · split_ifs
    · exact (spends_console _ _).le (by omega)
    · refine (Watchlist.spends_tickers.bind (m := 59 * T .calls + T .writes + 5000 * T .lockMs +
        135000 * T .sleepMs + 10 * T .quotes + T .texts) fun tickers => ?_).le (by omega)
      have hmost : (min tickers.length 10 - 1) * PriceService.furtherTicker T ≤
          9 * PriceService.furtherTicker T := Nat.mul_le_mul_right _ (by omega)
      refine ((PriceService.spends_quotesFor tickers).bind fun quotes =>
        (spends_consoleIf _ _ _).bind fun _ => spends_eval fun message =>
        (Signer.spends_sign message).bind fun signed => (SmsService.spends_send signed).map _).le ?_
      unfold PriceService.furtherTicker at hmost ⊢
      omega
  · have hkeys : Config.alertKeys.length = 6 := rfl
    rw [hkeys]
    omega

theorem spends_runDailyAlert : Spends T runDailyAlert (70 * T .calls + T .writes +
    5000 * T .lockMs + 135000 * T .sleepMs + 10 * T .quotes + T .texts) :=
  Prog.Affords.le (spends_dailyRun.catchWith fun e => (spends_console _ _).bind (m := 0) fun _ =>
    Prog.costs_raise _) (by omega)

end Scheduler
end Spazito
