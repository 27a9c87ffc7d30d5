import Spazito.AppsScript
import Spazito.ShellFootprints
import Spazito.VaultState

set_option autoImplicit false

/-!
# The vault when a step fails

Which of the operations on security state can end by throwing with part of their writes done, and
exactly when.
-/
namespace Spazito
open Ecma Script

namespace SecurityVault
open SecurityGate (securityKeys)

variable {α : Type}

/-- An operation that throws leaves the security state as it was. -/
def AllOrNothing (p : Action α) (w : World) : Prop :=
  ∀ e, (p.run host w).outcome = .error e →
    ∀ k ∈ securityKeys, (p.run host w).state.store k = w.store k

/-- An operation that flips the seal ends well and reports it. -/
def Reports (p : Action α) (reported : α → Prop) (w : World) : Prop :=
  (p.run host w).state.store .secSealed ≠ w.store .secSealed →
    ∃ a, (p.run host w).outcome = .ok a ∧ reported a

/-- How an operation ends that tears the security state under a known condition. -/
def Ends (tears : Prop) (reported : α → Prop) (s : Store) : Except JSError α → Store → Prop
  | .ok a, t => ¬ tears ∧ (t .secSealed ≠ s .secSealed → reported a)
  | .error _, t => tears ↔ ∃ k ∈ securityKeys, s k ≠ t k

theorem whole_iff {p : Action α} {w v : World} {x : Except JSError α} {tears : Prop}
    {reported : α → Prop} (hp : p.exec host w = (x, v)) (h : Ends tears reported w.store x v.store) :
    (AllOrNothing p w ∧ Reports p reported w) ↔ ¬ tears := by
  injection hp with hx hv
  unfold AllOrNothing Reports
  rw [hx, hv]
  cases x with
  | ok a => exact iff_of_true ⟨by rintro e ⟨⟩, fun hne => ⟨a, rfl, h.2 hne⟩⟩ h.1
  | error e =>
    have hkeep : (∀ k ∈ securityKeys, v.store k = w.store k) ↔ ¬ tears := by
      rw [show tears ↔ _ from h]
      push Not
      exact forall₂_congr fun _ _ => eq_comm
    constructor
    · exact fun hw => hkeep.mp (hw.1 e rfl)
    · intro ht
      refine ⟨fun _ _ => hkeep.mpr ht, fun hne => absurd ?_ hne⟩
      exact hkeep.mpr ht .secSealed (by decide)

theorem torn_of_tears {p : Action α} {w v : World} {x : Except JSError α} {tears : Prop}
    {reported : α → Prop} (hp : p.exec host w = (x, v)) (h : Ends tears reported w.store x v.store)
    (ht : tears) : ¬ AllOrNothing p w := by
  intro hwhole
  injection hp with hx hv
  cases x with
  | ok a => exact h.1 ht
  | error e =>
    obtain ⟨k, hk, hne⟩ := h.mp ht
    exact hne (hv ▸ hwhole e hx k hk).symm

theorem allOrNothing_of_exec {p : Action α} {w v : World} {x : Except JSError α}
    (hp : p.exec host w = (x, v)) (h : ∀ e, x = .error e → v.store = w.store) :
    AllOrNothing p w := by
  intro e he k _
  injection hp with hx hv
  rw [hv, h e (hx ▸ he)]

/-! ## The steps -/

theorem exec_setProperty_error (w : World) (k : Key) (v : JSString) {e : JSError}
    (he : w.env.write 0 = some e) :
    (setProperty k v).exec host w = (.error e, ⟨w.store, w.env.afterWrite⟩) :=
  Prog.exec_of_run host (run_setProperty_error w k v e he)

theorem exec_require_error (w : World) (k : Key) (hk : Config.isMissing (w.store k) = true) :
    (Config.require k).exec host w = (.error (Config.missingError [k]), w) := by
  rw [Prog.exec_of_run host (run_require w k), hk]
  rfl

variable [Platform]

def auditText (s : Store) (now : Time) (kind : JSString) (sender : Option JSString) : JSString :=
  Value.stringify (.arr (lastOf maxAuditEntries (s.array .secAudit ++
    [Value.obj [(js "t", .str (isoString now)), (js "k", .str kind),
      (js "s", .str (hexPrefix 3 (computeHmacSha256Signature (sender.getD [])
        (s.secret .verifierKey))))]])))

theorem exec_hashSender (w : World) (sender : Option JSString)
    (hkey : Config.isMissing (w.store .verifierKey) = false) :
    (hashSender sender).exec host w = (.ok (hexPrefix 3 (computeHmacSha256Signature
      (sender.getD []) (w.store.secret .verifierKey))), w) := by
  unfold hashSender
  rw [Prog.bind_eq, Prog.exec_bind_ok host (exec_require w _ hkey)]
  rfl

theorem exec_appendAudit_error (w : World) (kind : JSString) (sender : Option JSString)
    (h : Config.isMissing (w.store .verifierKey) = true ∨ w.env.write 0 ≠ none) :
    ∃ e env, (appendAudit kind sender).exec host w = (.error e, ⟨w.store, env⟩) := by
  unfold appendAudit
  simp only [Prog.bind_eq]
  rw [Prog.exec_bind_ok host (exec_readJson _ w), Prog.exec_bind_ok host (exec_now w)]
  cases hkey : Config.isMissing (w.store .verifierKey) with
  | true =>
    have hhash : (hashSender sender).exec host ⟨w.store, w.env.afterClock⟩ =
        (.error (Config.missingError [.verifierKey]), ⟨w.store, w.env.afterClock⟩) := by
      unfold hashSender
      rw [Prog.bind_eq, Prog.exec_bind_error host
        (exec_require_error ⟨w.store, w.env.afterClock⟩ _ hkey)]
    exact ⟨_, _, Prog.exec_bind_error host hhash⟩
  | false =>
    obtain ⟨e, he⟩ := Option.ne_none_iff_exists'.mp (h.resolve_left (by simp [hkey]))
    rw [Prog.exec_bind_ok host (exec_hashSender ⟨w.store, w.env.afterClock⟩ sender hkey)]
    exact ⟨e, _, exec_setProperty_error ⟨w.store, w.env.afterClock⟩ _ _ he⟩

theorem exec_appendAudit_ok (w : World) (kind : JSString) (sender : Option JSString)
    (hkey : Config.isMissing (w.store .verifierKey) = false) (hwrite : w.env.write 0 = none) :
    (appendAudit kind sender).exec host w =
      (.ok (), ⟨w.store.set .secAudit (auditText w.store (w.env.clock 0) kind sender),
        w.env.afterClock.afterWrite⟩) := by
  unfold appendAudit
  simp only [Prog.bind_eq]
  rw [Prog.exec_bind_ok host (exec_readJson _ w), Prog.exec_bind_ok host (exec_now w),
    Prog.exec_bind_ok host (exec_hashSender ⟨w.store, w.env.afterClock⟩ sender hkey)]
  exact exec_setProperty ⟨w.store, w.env.afterClock⟩ _ _ hwrite

/-! ## One write at the end -/

theorem allOrNothing_recordAudit (w : World) (kind : JSString) (sender : Option JSString) :
    AllOrNothing (recordAudit kind sender) w := by
  cases hl : w.env.lock 0 with
  | false =>
    refine allOrNothing_of_exec (x := .ok ()) (v := ⟨w.store, w.env.afterLock⟩) ?_ (fun _ _ => rfl)
    simp only [recordAudit, exec_withScriptLock, hl]
    rfl
  | true =>
    have hexec : (recordAudit kind sender).exec host w =
        (appendAudit kind sender).exec host ⟨w.store, w.env.afterLock⟩ := by
      rw [recordAudit, exec_withScriptLock, hl, if_pos rfl]
    by_cases h : Config.isMissing (w.store .verifierKey) = true ∨ w.env.write 0 ≠ none
    · obtain ⟨e, env, he⟩ := exec_appendAudit_error ⟨w.store, w.env.afterLock⟩ kind sender h
      exact allOrNothing_of_exec (hexec.trans he) fun _ _ => rfl
    · push Not at h
      refine allOrNothing_of_exec (hexec.trans
        (exec_appendAudit_ok ⟨w.store, w.env.afterLock⟩ kind sender (by simpa using h.1) h.2)) ?_
      rintro e ⟨⟩

theorem allOrNothing_checkAndRecordSid (w : World) (sid : Value) :
    AllOrNothing (checkAndRecordSid sid) w := by
  unfold checkAndRecordSid
  split
  · next sid =>
    split_ifs
    · rintro e ⟨⟩
    · cases hl : w.env.lock 0 with
      | false =>
        refine allOrNothing_of_exec (x := .ok true) (v := ⟨w.store, w.env.afterLock⟩) ?_
          (fun _ _ => rfl)
        rw [exec_withScriptLock, hl]
        rfl
      | true =>
        refine allOrNothing_of_exec ((exec_withScriptLock w _ _ _).trans (Prod.mk.eta).symm) ?_
        rw [hl, if_pos rfl]
        simp only [Prog.bind_eq]
        rw [Prog.exec_bind_ok host (exec_now _),
          Prog.exec_bind_ok host (exec_readJson _ ⟨w.store, w.env.afterLock.afterClock⟩)]
        -- The checks may throw; the write comes after them.
        cases hfresh : keepFresh (w.env.afterLock.clock 0) (w.store.array .secSeenSids) with
        | error f => exact fun _ _ => rfl
        | ok fresh =>
          rw [Prog.exec_bind_ok host (exec_eval_ok _ fresh)]
          cases hseen : hasSid (trim sid) fresh with
          | error f => exact fun _ _ => rfl
          | ok seen =>
            rw [Prog.exec_bind_ok host (exec_eval_ok _ seen)]
            cases seen with
            | true => exact fun _ _ => rfl
            | false =>
              rw [if_neg Bool.false_ne_true]
              cases hwrite : w.env.write 0 with
              | some e =>
                rw [Prog.exec_bind_error host
                  (exec_setProperty_error ⟨w.store, w.env.afterLock.afterClock⟩ _ _ hwrite)]
                exact fun _ _ => rfl
              | none =>
                rw [Prog.exec_bind_ok host
                  (exec_setProperty ⟨w.store, w.env.afterLock.afterClock⟩ _ _ hwrite)]
                rintro e ⟨⟩
  · rintro e ⟨⟩

/-! ## Several writes -/

def nextFailures (s : Store) : Number := Number.add (countOrZero (s .secFailures)) (.finite 1)

def Seals (s : Store) : Prop :=
  Number.le (.finite maxFailures) (nextFailures s) = true ∧ s .secSealed ≠ some (js "true")

/-- A failure that writes the new count, or more, and then throws. -/
def RegisterTears (w : World) (sender : Option JSString) : Prop :=
  let counted := w.store .secFailures ≠ some (nextFailures w.store).toText
  w.env.lock 0 = true ∧ w.env.write 0 = none ∧
    if Config.isMissing (w.store .verifierKey) = true ∨ w.env.write 1 ≠ none then counted
    else Seals w.store ∧
      if w.env.write 2 ≠ none then counted ∨ w.store .secAudit ≠
        some (auditText w.store (w.env.clock 0) (js "rejected") sender)
      else w.env.write 3 ≠ none

/-- An unseal that clears the flag, or more, and then throws. -/
def UnsealTears (w : World) : Prop :=
  w.env.lock 0 = true ∧ w.env.write 0 = none ∧
    if w.env.write 1 ≠ none then w.store .secSealed ≠ some (js "false")
    else (Config.isMissing (w.store .verifierKey) = true ∨ w.env.write 2 ≠ none) ∧
      (w.store .secSealed ≠ some (js "false") ∨ w.store .secFailures ≠ some (js "0"))

theorem ends_unsealBot (w : World) (sender : Option JSString) : ∃ x v,
    (unsealBot sender).exec host w = (x, v) ∧
      Ends (UnsealTears w) (fun flipped => flipped = true) w.store x v.store := by
  cases hl : w.env.lock 0 with
  | false =>
    refine ⟨.ok false, ⟨w.store, w.env.afterLock⟩, ?_, by simp [UnsealTears, hl], fun h => absurd rfl h⟩
    rw [unsealBot, exec_withScriptLock, hl]
    rfl
  | true =>
    rw [unsealBot, exec_withScriptLock, hl, if_pos rfl]
    simp only [Prog.bind_eq]
    cases hflag : w.env.write 0 with
    | some e =>
      rw [Prog.exec_bind_error host (exec_setProperty_error ⟨w.store, w.env.afterLock⟩ _ _ hflag)]
      exact ⟨_, _, rfl, by simp [Ends, UnsealTears, hflag]⟩
    | none =>
      rw [Prog.exec_bind_ok host (exec_setProperty ⟨w.store, w.env.afterLock⟩ _ _ hflag)]
      cases hcount : w.env.write 1 with
      | some e =>
        rw [Prog.exec_bind_error host (exec_setProperty_error
          ⟨w.store.set .secSealed (js "false"), w.env.afterLock.afterWrite⟩ _ _ hcount)]
        refine ⟨_, _, rfl, ?_⟩
        simp [Ends, UnsealTears, hl, hflag, hcount, securityKeys]
      | none =>
        rw [Prog.exec_bind_ok host (exec_setProperty
          ⟨w.store.set .secSealed (js "false"), w.env.afterLock.afterWrite⟩ _ _ hcount)]
        by_cases h : Config.isMissing (w.store .verifierKey) = true ∨ w.env.write 2 ≠ none
        · obtain ⟨e, env, he⟩ := exec_appendAudit_error
            ⟨(w.store.set .secSealed (js "false")).set .secFailures (js "0"),
              w.env.afterLock.afterWrite.afterWrite⟩ (js "unsealed") sender (by simpa using h)
          rw [Prog.exec_bind_error host he]
          refine ⟨_, _, rfl, ?_⟩
          simp [Ends, UnsealTears, hl, hflag, hcount, h, securityKeys, or_comm]
        · have hok := h
          push Not at hok
          rw [Prog.exec_bind_ok host (exec_appendAudit_ok
            ⟨(w.store.set .secSealed (js "false")).set .secFailures (js "0"),
              w.env.afterLock.afterWrite.afterWrite⟩ (js "unsealed") sender (by simpa using hok.1)
            hok.2)]
          exact ⟨_, _, rfl, by simp [UnsealTears, hcount, h], fun _ => rfl⟩

omit [Platform] in
theorem exec_reachesSeal (w : World) (failures : Number) :
    (reachesSeal failures).exec host w =
      (.ok (Number.le (.finite maxFailures) failures && !decide (w.store .secSealed =
        some (js "true"))), w) := by
  unfold reachesSeal
  split_ifs with h
  · rw [Prog.bind_eq, Prog.exec_bind_ok host (exec_isSealed w), h]
    rfl
  · rw [Bool.not_eq_true] at h
    rw [h]
    rfl

/-- Where a counted failure stands before it looks at the seal. -/
def counted (w : World) (sender : Option JSString) : World :=
  ⟨(w.store.set .secFailures (nextFailures w.store).toText).set .secAudit
      (auditText w.store (w.env.clock 0) (js "rejected") sender),
    w.env.afterLock.afterWrite.afterClock.afterWrite⟩

theorem exec_reachesSeal_counted (w : World) (sender : Option JSString) [Decidable (Seals w.store)] :
    (reachesSeal (nextFailures w.store)).exec host (counted w sender) =
      (.ok (decide (Seals w.store)), counted w sender) := by
  have hsame : (Number.le (.finite maxFailures) (nextFailures w.store) &&
      !decide (w.store .secSealed = some (js "true"))) = decide (Seals w.store) := by
    rw [Bool.eq_iff_iff, decide_eq_true_iff]
    simp [Seals]
  rw [exec_reachesSeal, ← hsame]
  simp [counted]

theorem exec_audit_counted (w : World) (sender : Option JSString)
    (hkey : Config.isMissing (w.store .verifierKey) = false) (hwrite : w.env.write 1 = none) :
    (appendAudit (js "rejected") sender).exec host
      ⟨w.store.set .secFailures (nextFailures w.store).toText, w.env.afterLock.afterWrite⟩ =
        (.ok (), counted w sender) := by
  rw [exec_appendAudit_ok _ _ _ (by simpa using hkey) hwrite]
  simp [counted, auditText, Store.array, Store.secret]

theorem ends_registerFailure (w : World) (sender : Option JSString) : ∃ x v,
    (registerFailure sender).exec host w = (x, v) ∧
      Ends (RegisterTears w sender) (fun failure => failure.justSealed = true) w.store x v.store := by
  classical
  cases hl : w.env.lock 0 with
  | false =>
    refine ⟨.ok ⟨decide (w.store .secSealed = some (js "true")), false⟩, ⟨w.store, w.env.afterLock⟩,
      ?_, by simp [RegisterTears, hl], fun h => absurd rfl h⟩
    rw [registerFailure, exec_withScriptLock, hl, if_neg Bool.false_ne_true, Prog.bind_eq,
      Prog.exec_bind_ok host (exec_isSealed _)]
    rfl
  | true =>
    rw [registerFailure, exec_withScriptLock, hl, if_pos rfl]
    simp only [Prog.bind_eq]
    rw [Prog.exec_bind_ok host (exec_getProperty ⟨w.store, w.env.afterLock⟩ .secFailures),
      show Number.add (countOrZero (w.store .secFailures)) (.finite 1) = nextFailures w.store from rfl]
    cases hcount : w.env.write 0 with
    | some e =>
      rw [Prog.exec_bind_error host (exec_setProperty_error ⟨w.store, w.env.afterLock⟩ _ _ hcount)]
      exact ⟨_, _, rfl, by simp [Ends, RegisterTears, hcount]⟩
    | none =>
      rw [Prog.exec_bind_ok host (exec_setProperty ⟨w.store, w.env.afterLock⟩ _ _ hcount)]
      by_cases h : Config.isMissing (w.store .verifierKey) = true ∨ w.env.write 1 ≠ none
      · obtain ⟨e, env, he⟩ := exec_appendAudit_error
          ⟨w.store.set .secFailures (nextFailures w.store).toText, w.env.afterLock.afterWrite⟩
          (js "rejected") sender (by simpa using h)
        rw [Prog.exec_bind_error host he]
        refine ⟨_, _, rfl, ?_⟩
        simp [Ends, RegisterTears, hl, hcount, h, securityKeys]
      · have hok := h
        push Not at hok
        have hkey : Config.isMissing (w.store .verifierKey) = false := by simpa using hok.1
        rw [Prog.exec_bind_ok host (exec_audit_counted w sender hkey hok.2),
          Prog.exec_bind_ok host (exec_reachesSeal_counted w sender)]
        by_cases hseal : Seals w.store
        · rw [decide_eq_true hseal, if_pos rfl]
          cases hflag : w.env.write 2 with
          | some e =>
            rw [Prog.exec_bind_error host (exec_setProperty_error (counted w sender) _ _ hflag)]
            refine ⟨_, _, rfl, ?_⟩
            simp [Ends, RegisterTears, hl, hcount, h, hseal, hflag, securityKeys, counted]
          | none =>
            rw [Prog.exec_bind_ok host (exec_setProperty (counted w sender) _ _ hflag)]
            have hkey' : Config.isMissing (((counted w sender).store.set .secSealed (js "true"))
                .verifierKey) = false := by simpa [counted] using hkey
            cases hlast : w.env.write 3 with
            | some e =>
              obtain ⟨e', env, he⟩ := exec_appendAudit_error
                ⟨(counted w sender).store.set .secSealed (js "true"),
                  (counted w sender).env.afterWrite⟩ (js "sealed") sender
                (.inr (by simp [counted, hlast]))
              rw [Prog.exec_bind_error host he]
              refine ⟨_, _, rfl, ?_⟩
              simp [Ends, RegisterTears, hl, hcount, h, hseal, hflag, hlast, securityKeys, counted,
                hseal.2]
            | none =>
              rw [Prog.exec_bind_ok host (exec_appendAudit_ok
                ⟨(counted w sender).store.set .secSealed (js "true"),
                  (counted w sender).env.afterWrite⟩ (js "sealed") sender hkey' hlast)]
              exact ⟨_, _, rfl, by simp [RegisterTears, h, hflag, hlast], fun _ => rfl⟩
        · rw [decide_eq_false hseal, if_neg Bool.false_ne_true,
            Prog.exec_bind_ok host (exec_isSealed _)]
          exact ⟨_, _, rfl, by simp [RegisterTears, h, hseal], by simp [counted]⟩

/-! ## Exactly when -/

/-- Every operation on the security state is all or nothing, and a seal that flips is reported. -/
structure Whole (w : World) (sender : Option JSString) (kind : JSString) (sid : Value) : Prop where
  registerFailure : AllOrNothing (registerFailure sender) w
  unsealBot : AllOrNothing (unsealBot sender) w
  recordAudit : AllOrNothing (recordAudit kind sender) w
  checkAndRecordSid : AllOrNothing (checkAndRecordSid sid) w
  sealing : Reports (SecurityVault.registerFailure sender) (fun f => f.justSealed = true) w
  unsealing : Reports (SecurityVault.unsealBot sender) (fun flipped => flipped = true) w

theorem whole_operations_iff (w : World) (sender : Option JSString) (kind : JSString) (sid : Value) :
    Whole w sender kind sid ↔ ¬ RegisterTears w sender ∧ ¬ UnsealTears w := by
  obtain ⟨x, v, hx, hregister⟩ := ends_registerFailure w sender
  obtain ⟨y, u, hy, hunseal⟩ := ends_unsealBot w sender
  rw [← whole_iff hx hregister, ← whole_iff hy hunseal]
  constructor
  · exact fun h => ⟨⟨h.registerFailure, h.sealing⟩, h.unsealBot, h.unsealing⟩
  · rintro ⟨⟨hfailure, hsealing⟩, hflip, hunsealing⟩
    exact ⟨hfailure, hflip, allOrNothing_recordAudit w kind sender,
      allOrNothing_checkAndRecordSid w sid, hsealing, hunsealing⟩

end SecurityVault

section Samples
open AppsScript SecurityVault

def keylessWorld : World := ⟨Function.update sampleStore .verifierKey none, sampleEnv⟩

theorem SecurityVault.keyless_torn : ¬ Whole keylessWorld none (js "replay") (.str (js "SM1")) := by
  intro h
  obtain ⟨x, v, hx, hends⟩ := ends_registerFailure keylessWorld none
  refine torn_of_tears hx hends ⟨rfl, rfl, ?_⟩ h.registerFailure
  rw [if_pos (.inl rfl)]
  exact (Option.some_ne_none _).symm

end Samples
end Spazito
