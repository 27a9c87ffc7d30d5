import Spazito.CommandHandler
import Spazito.Scheduler
import Spazito.StorePool

set_option autoImplicit false

/-!
# The locks of the shell

Every write of a property happens under the script lock, which every exit releases. What the vault,
the gate and the watchlist do outside the lock is to read.
-/
namespace Spazito
open Ecma Script

/-- What the lock protects: the properties. -/
def writes (o : Op) : Prop := ∃ k v, o = .setProperty k v

/-- Operations only, and none that writes. -/
def Quiet {α : Type} (p : Action α) : Prop := p.Within fun c => ∃ o, c = .op o ∧ ¬ writes o

abbrev Locked {α : Type} (p : Action α) : Prop := p.Disciplined writes false

section Quiet

variable {α β : Type} {p : Action α}

theorem Quiet.lockless (hp : Quiet p) : p.Lockless := Prog.Within.mono hp fun _ ⟨o, ho, _⟩ => ⟨o, ho⟩
theorem Quiet.locked (hp : Quiet p) : Locked p := Prog.Disciplined.unlocked hp
theorem Quiet.bind {f : α → Action β} (hp : Quiet p) (hf : ∀ a, Quiet (f a)) : Quiet (p.bind f) :=
  Prog.Within.bind hp hf

theorem quiet_ret (a : α) : Quiet (.ret a) := trivial
theorem quiet_raise (e : JSError) : Quiet (.raise e : Action α) := trivial

theorem quiet_op {o : Op} (ho : ¬ writes o) : Quiet (Prog.op (S := GAS) o) :=
  ⟨⟨o, rfl, ho⟩, fun _ => trivial⟩

theorem quiet_getProperty (k : Key) : Quiet (getProperty k) := quiet_op (by simp [writes])
theorem quiet_now : Quiet now := quiet_op (by simp [writes])
theorem quiet_console (level : Level) (text : JSString) : Quiet (console level text) :=
  quiet_op (by simp [writes])

theorem quiet_consoleIf (c : Prop) [Decidable c] (level : Level) (text : JSString) :
    Quiet (consoleIf c level text) := by
  unfold consoleIf
  split_ifs
  · exact quiet_console _ _
  · exact quiet_ret _

theorem quiet_eval [Platform] (x : Except Fault α) : Quiet (eval x) := by cases x <;> trivial

theorem quiet_require (k : Key) : Quiet (Config.require k) := by
  refine (quiet_getProperty k).bind fun value => ?_
  dsimp only
  split_ifs <;> trivial

/-- A section under the lock, whatever its body writes. -/
theorem locked_withScriptLock {n : ℕ} {mutate onBusy : Action α} (hm : mutate.Lockless)
    (hb : Quiet onBusy) : Locked (Locks.withScriptLock n mutate onBusy) :=
  disciplined_withScriptLock (by simp [writes]) hm hb.locked

theorem Quiet.locked_bind {f : α → Action β} (hp : Quiet p) (hf : ∀ a, Locked (f a)) :
    Locked (p.bind f) := hp.locked.bind hf

end Quiet

section Shell

variable [Platform]

namespace SecurityVault

omit [Platform] in
theorem quiet_currentSequence : Quiet currentSequence :=
  (quiet_getProperty _).bind fun _ => quiet_ret _

omit [Platform] in
theorem quiet_isSealed : Quiet isSealed := (quiet_getProperty _).bind fun _ => quiet_ret _

omit [Platform] in
theorem quiet_readJson (key : Key) : Quiet (readJson key) := by
  refine (quiet_getProperty key).bind fun raw => ?_
  cases raw with
  | none => exact quiet_ret _
  | some raw =>
    dsimp only
    split
    · exact quiet_ret _
    · exact quiet_ret _
    · exact (quiet_console _ _).bind fun _ => quiet_ret _

omit [Platform] in
theorem quiet_reachesSeal (failures : Number) : Quiet (reachesSeal failures) := by
  unfold reachesSeal
  split_ifs
  · exact quiet_isSealed.bind fun _ => quiet_ret _
  · exact quiet_ret _

theorem lockless_appendAudit (kind : JSString) (sender : Option JSString) :
    (appendAudit kind sender).Lockless :=
  (quiet_readJson _).lockless.bind fun _ => quiet_now.lockless.bind fun _ =>
    ((quiet_require _).bind fun _ => quiet_ret _).lockless.bind fun _ => lockless_setProperty _ _

omit [Platform] in
theorem locked_nextSequence : Locked nextSequence :=
  locked_withScriptLock (quiet_currentSequence.lockless.bind fun _ =>
    (lockless_setProperty _ _).bind fun _ => (quiet_ret _).lockless) (quiet_ret _)

theorem locked_recordAudit (kind : JSString) (sender : Option JSString) :
    Locked (recordAudit kind sender) :=
  locked_withScriptLock (lockless_appendAudit kind sender) (quiet_ret _)

/-! The bodies of the locked sections. -/

def recordBody (cleanSid : JSString) : Action Bool := do
  let now ← now
  let seen ← readJson .secSeenSids
  let fresh ← eval (keepFresh now seen)
  if ← eval (hasSid cleanSid fresh) then return true else
  let entry := Value.obj [(js "sid", .str cleanSid), (js "t", .num (.finite now.val))]
  setProperty .secSeenSids (Value.stringify (.arr (lastOf maxSids (fresh ++ [entry]))))
  return false

def countBody (sender : Option JSString) : Action Failure := do
  let failures := Number.add (countOrZero (← getProperty .secFailures)) (.finite 1)
  setProperty .secFailures failures.toText
  appendAudit (js "rejected") sender
  if ← reachesSeal failures then
    setProperty .secSealed (js "true")
    appendAudit (js "sealed") sender
    console .error (js "SecurityVault: " ++ failures.toText ++
      js " consecutive rejected token-valid requests — the bot " ++
      js "has SEALED itself and will ignore everything until re-armed with the unlock secret " ++
      js "(ADR 008 §3).")
    return ⟨true, true⟩
  else return ⟨← isSealed, false⟩

def rearmBody (sender : Option JSString) : Action Bool := do
  setProperty .secSealed (js "false")
  setProperty .secFailures (js "0")
  appendAudit (js "unsealed") sender
  return true

theorem checkAndRecordSid_eq {sid : JSString} (h : trim sid ≠ []) : checkAndRecordSid (.str sid) =
    Locks.withScriptLock lockTimeoutMs (recordBody (trim sid)) (return true) := if_neg h

theorem registerFailure_eq (sender : Option JSString) : registerFailure sender =
    Locks.withScriptLock lockTimeoutMs (countBody sender) (do return ⟨← isSealed, false⟩) := rfl

theorem lockless_recordBody (sid : JSString) : (recordBody sid).Lockless := by
  refine quiet_now.lockless.bind fun _ => (quiet_readJson _).lockless.bind fun _ =>
    (quiet_eval _).lockless.bind fun _ => (quiet_eval _).lockless.bind fun _ => ?_
  split_ifs
  · exact (quiet_ret _).lockless
  · exact (lockless_setProperty _ _).bind fun _ => (quiet_ret _).lockless

theorem lockless_countBody (sender : Option JSString) : (countBody sender).Lockless := by
  refine (quiet_getProperty _).lockless.bind fun _ => (lockless_setProperty _ _).bind fun _ =>
    (lockless_appendAudit _ _).bind fun _ => (quiet_reachesSeal _).lockless.bind fun tripped => ?_
  split_ifs
  · exact (lockless_setProperty _ _).bind fun _ => (lockless_appendAudit _ _).bind fun _ =>
      (quiet_console _ _).lockless.bind fun _ => (quiet_ret _).lockless
  · exact (quiet_isSealed.bind fun _ => quiet_ret _).lockless

theorem lockless_rearmBody (sender : Option JSString) : (rearmBody sender).Lockless :=
  (lockless_setProperty _ _).bind fun _ => (lockless_setProperty _ _).bind fun _ =>
    (lockless_appendAudit _ _).bind fun _ => (quiet_ret _).lockless

theorem locked_checkAndRecordSid (sid : Value) : Locked (checkAndRecordSid sid) := by
  cases sid with
  | str text =>
    by_cases hblank : trim text = []
    · rw [checkAndRecordSid, if_pos hblank]
      exact (quiet_ret _).locked
    · rw [checkAndRecordSid_eq hblank]
      exact locked_withScriptLock (lockless_recordBody _) (quiet_ret _)
  | undefined | null | bool _ | num _ | arr _ | obj _ => exact (quiet_ret _).locked

theorem locked_registerFailure (sender : Option JSString) : Locked (registerFailure sender) :=
  locked_withScriptLock (lockless_countBody sender) (quiet_isSealed.bind fun _ => quiet_ret _)

omit [Platform] in
theorem locked_resetFailures : Locked resetFailures := by
  refine (quiet_getProperty _).locked_bind fun raw => ?_
  split_ifs
  · exact (quiet_ret _).locked
  · exact locked_withScriptLock (lockless_setProperty _ _) (quiet_ret _)

theorem locked_unsealBot (sender : Option JSString) : Locked (unsealBot sender) :=
  locked_withScriptLock (lockless_rearmBody sender) ((quiet_console _ _).bind fun _ => quiet_ret _)

end SecurityVault

namespace SecurityGate

omit [Platform] in
theorem quiet_matchesToken (params : Parameters) : Quiet (matchesToken params) :=
  (quiet_require _).bind fun _ => quiet_ret _

omit [Platform] in
theorem quiet_matchesRecipient (params : Parameters) : Quiet (matchesRecipient params) :=
  (quiet_require _).bind fun _ => quiet_ret _

theorem locked_tryUnseal (params : Parameters) : Locked (tryUnseal params) := by
  unfold tryUnseal
  dsimp only
  split_ifs
  · exact (quiet_ret _).locked
  · refine (quiet_require _).locked_bind fun _ => (quiet_matchesToken _).locked_bind fun _ =>
      (quiet_matchesRecipient _).locked_bind fun _ => ?_
    split_ifs
    · exact (quiet_ret _).locked
    · refine (SecurityVault.locked_checkAndRecordSid _).bind fun replayed => ?_
      split_ifs
      · exact (quiet_ret _).locked
      · refine (SecurityVault.locked_unsealBot _).bind fun flipped => ?_
        split_ifs
        · exact (quiet_ret _).locked
        · exact ((quiet_console _ _).bind fun _ => quiet_ret _).locked

theorem locked_authorize (e : Option WebhookEvent) : Locked (authorize e) := by
  refine SecurityVault.quiet_isSealed.locked_bind fun isSealed => ?_
  split_ifs
  · refine (locked_tryUnseal _).bind fun unsealed => ?_
    split_ifs
    · exact SecurityVault.locked_resetFailures.bind fun _ => (quiet_ret _).locked
    · exact (quiet_ret _).locked
  · refine (quiet_matchesToken _).locked_bind fun tokenOk =>
      (quiet_matchesRecipient _).locked_bind fun fromOk => ?_
    split_ifs
    · refine (quiet_console _ _).locked_bind fun _ => ?_
      exact (SecurityVault.locked_registerFailure _).bind fun _ => (quiet_ret _).locked
    · exact ((quiet_console _ _).bind fun _ => quiet_ret _).locked
    · refine (SecurityVault.locked_checkAndRecordSid _).bind fun replayed => ?_
      split_ifs
      · refine (quiet_console _ _).locked_bind fun _ => ?_
        exact (SecurityVault.locked_recordAudit _ _).bind fun _ => (quiet_ret _).locked
      · exact SecurityVault.locked_resetFailures.bind fun _ => (quiet_ret _).locked

end SecurityGate

namespace Watchlist

theorem quiet_tickers : Quiet tickers := by
  have hcorrupted : ∀ message raw, Quiet (corrupted message raw) :=
    fun _ _ => (quiet_console _ _).bind fun _ => quiet_ret _
  refine (quiet_getProperty _).bind fun raw => ?_
  cases raw with
  | none => exact quiet_ret _
  | some raw =>
    dsimp only
    split
    · exact hcorrupted _ _
    · exact (quiet_eval _).bind fun _ => (quiet_consoleIf _ _ _).bind fun _ =>
        (quiet_consoleIf _ _ _).bind fun _ => quiet_ret _
    · exact hcorrupted _ _

omit [Platform] in
theorem quiet_isPaused : Quiet isPaused := (quiet_getProperty _).bind fun _ => quiet_ret _

omit [Platform] in
theorem lockless_store (tickers : List JSString) : (store tickers).Lockless :=
  lockless_setProperty _ _

omit [Platform] in
theorem locked_withLock {mutate : Action Outcome} (hm : mutate.Lockless) :
    Locked (withLock mutate) := locked_withScriptLock hm (quiet_ret _)

end Watchlist
end Shell
end Spazito
