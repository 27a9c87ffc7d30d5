import Spazito.AppsScript
import Spazito.VaultState

set_option autoImplicit false

/-!
# The gate follows the abstract vault

One request at the gate of the source is one step of the abstract state; while the bot is sealed,
only the full unlock is more than a read.
-/
namespace Spazito
open Ecma Script

/-- Every key that the webhook needs is set. -/
def Configured (s : Store) : Prop := ∀ k ∈ Config.webhookKeys, Config.isMissing (s k) = false

theorem Configured.secret_ne_nil {s : Store} (hc : Configured s) {k : Key}
    (hk : k ∈ Config.webhookKeys) : s.secret k ≠ [] := Store.secret_ne_nil (hc k hk)

theorem Configured.of_frame {s s₀ : Store} (hc : Configured s₀) {written : List Key}
    (hkeys : ∀ k ∈ Config.webhookKeys, k ∉ written) (h : ∀ k ∉ written, s k = s₀ k) :
    Configured s := by
  intro k hk
  rw [h k (hkeys k hk)]
  exact hc k hk

theorem getD_eq_iff {x : Option JSString} {secret : JSString} (h : secret ≠ []) :
    x.getD [] = secret ↔ x = some secret := by
  cases x with
  | none => simp [h.symm]
  | some v => simp

namespace SecurityGate

def Unlocks (body : Option JSString) (secret : JSString) : Prop :=
  (CommandParser.parse (Value.ofOption body)).type = .unlock ∧
    (CommandParser.parse (Value.ofOption body)).arg = some secret

instance (s : Store) : Decidable (Configured s) :=
  inferInstanceAs (Decidable (∀ k ∈ Config.webhookKeys, _))

instance (body : Option JSString) (secret : JSString) : Decidable (Unlocks body secret) :=
  inferInstanceAs (Decidable (_ ∧ _))

def showingOf (params : Parameters) (s : Store) : Showing where
  tokenOk := decide (params.k.getD [] = s.secret .webhookToken)
  fromOk := decide (params.sender.getD [] = s.secret .recipientNumber)
  unlocks := decide (Unlocks params.body (s.secret .unlockSecret))
  sid := SecurityVault.sidOf params.messageSid

theorem showingOf_frame {s s₀ : Store} (h : ∀ k ∉ securityKeys, s k = s₀ k) (params : Parameters) :
    showingOf params s = showingOf params s₀ := by
  have hsecret : ∀ k ∉ securityKeys, s.secret k = s₀.secret k := fun k hk => by
    rw [Store.secret, h k hk, Store.secret]
  rw [showingOf, showingOf, hsecret .webhookToken (by decide), hsecret .recipientNumber (by decide),
    hsecret .unlockSecret (by decide)]

theorem unlocks_false {params : Parameters} {s : Store} (hsecret : s.secret .unlockSecret ≠ [])
    (h : (CommandParser.parse (Value.ofOption params.body)).type ≠ .unlock ∨
      (CommandParser.parse (Value.ofOption params.body)).arg.getD [] = []) :
    (showingOf params s).unlocks = false := by
  refine decide_eq_false fun hu => h.elim (fun h => h hu.1) fun h => ?_
  rw [hu.2] at h
  exact hsecret h

theorem equals_phrase {params : Parameters} {s : Store} (hsecret : s.secret .unlockSecret ≠ [])
    (htype : (CommandParser.parse (Value.ofOption params.body)).type = .unlock) :
    SecureCompare.equals (.str ((CommandParser.parse (Value.ofOption params.body)).arg.getD []))
      (.str (s.secret .unlockSecret)) = (showingOf params s).unlocks := by
  rw [SecureCompare.equals_str]
  refine decide_eq_decide.mpr ((getD_eq_iff hsecret).trans ?_)
  exact (and_iff_right htype).symm

/-- The store after an accepted unlock, up to the audit. -/
def rearmed (s : Store) (seen : List (JSString × Time)) : Store :=
  ((s.set .secSeenSids (sidsText seen)).set .secSealed (js "false")).set .secFailures (js "0")

section Specs

variable [Platform] {w : World} {v : Vault}

omit [Platform] in
theorem exec_matchesToken (params : Parameters) (hc : Configured w.store) :
    (matchesToken params).exec host w = (.ok (showingOf params w.store).tokenOk, w) := by
  have hset := hc .webhookToken (by decide)
  rw [Prog.exec_of_run host (run_matchesToken params w), hset]
  rfl

omit [Platform] in
theorem exec_matchesRecipient (params : Parameters) (hc : Configured w.store) :
    (matchesRecipient params).exec host w = (.ok (showingOf params w.store).fromOk, w) := by
  have hset := hc .recipientNumber (by decide)
  rw [Prog.exec_of_run host (run_matchesRecipient params w), hset]
  rfl

theorem exec_tryUnseal_comparisons (params : Parameters) (hc : Configured w.store) :
    let q := showingOf params w.store
    (tryUnseal params).exec host w =
      if q.unlocks && q.tokenOk && q.fromOk then
        Prog.next ((SecurityVault.checkAndRecordSid (Value.ofOption params.messageSid)).exec host w)
          fun replayed w' => if replayed then (.ok false, w') else
            Prog.next ((SecurityVault.unsealBot params.sender).exec host w')
              fun unsealed w' => (.ok unsealed, w')
      else (.ok false, w) := by
  intro q
  have hsecret : w.store.secret .unlockSecret ≠ [] := hc.secret_ne_nil (by decide)
  by_cases hi : (CommandParser.parse (Value.ofOption params.body)).type ≠ .unlock ∨
      (CommandParser.parse (Value.ofOption params.body)).arg.getD [] = []
  · simp only [tryUnseal, hi, ↓reduceIte, unlocks_false hsecret hi, q, Bool.false_and,
      Bool.false_eq_true]
    rfl
  · have hphrase : _ = q.unlocks := equals_phrase hsecret (not_not.mp (not_or.mp hi).1)
    simp only [tryUnseal, hi, ↓reduceIte, Prog.bind_eq, Prog.exec_bind,
      exec_require w .unlockSecret (hc .unlockSecret (by decide)), Prog.next_ok,
      exec_matchesToken params hc, exec_matchesRecipient params hc, hphrase]
    change Prog.exec host (if (!(q.unlocks && q.tokenOk && q.fromOk)) = true then _ else _) w = _
    cases q.unlocks && q.tokenOk && q.fromOk with
    | false => rfl
    | true =>
      simp only [Bool.not_true, Bool.false_eq_true, ↓reduceIte, Prog.exec_bind]
      refine congrArg (Prog.next _) (funext fun replayed => funext fun w' => ?_)
      cases replayed with
      | true => rfl
      | false =>
        simp only [Bool.false_eq_true, ↓reduceIte, Prog.exec_bind]
        refine congrArg (Prog.next _) (funext fun unsealed => funext fun w'' => ?_)
        cases unsealed <;> rfl

omit [Platform] in
theorem passing_sid {m : Option JSString} {now : Time} {free : Bool} {sid : JSString}
    (h : v.passing m now free = some sid) : m.isSome = true := by
  cases m with
  | none => cases h
  | some s => rfl

theorem exec_authorize_unlock (e : Option WebhookEvent)
    (hs : w.store .secSealed = some (js "true")) :
    (authorize e).exec host w = Prog.next ((tryUnseal (paramsOf e)).exec host w)
      fun ok w' => if ok then Prog.next (SecurityVault.resetFailures.exec host w')
        fun _ w'' => (.ok ⟨true, false⟩, w'') else (.ok ⟨false, false⟩, w') := by
  simp only [authorize, Prog.bind_eq, Prog.exec_bind, SecurityVault.exec_isSealed, hs,
    Prog.next_ok, decide_true, ↓reduceIte]
  refine congrArg (Prog.next _) (funext fun ok => funext fun w' => ?_)
  cases ok <;> simp [Prog.exec_bind]

/-- What a sealed gate does: the full unlock records the sid and re-arms, unless a lock is busy. -/
theorem exec_authorize_sealed (e : Option WebhookEvent) (hc : Configured w.store)
    (hr : Represents w.store v) (hw : w.env.Writes) (hs : w.store .secSealed = some (js "true")) :
    ∃ text env, (authorize e).exec host w =
      match v.unlocking (showingOf (paramsOf e) w.store) (w.env.clock 0) (w.env.lock 0) with
      | none => (.ok ⟨false, false⟩, ⟨w.store, env⟩)
      | some sid =>
        if w.env.lock 1 then
          (.ok ⟨true, false⟩,
            ⟨(rearmed w.store (v.record (w.env.clock 0) sid).seen).set .secAudit text, env⟩)
        else (.ok ⟨false, false⟩,
          ⟨w.store.set .secSeenSids (sidsText (v.record (w.env.clock 0) sid).seen), env⟩) := by
  rw [exec_authorize_unlock e hs, exec_tryUnseal_comparisons (paramsOf e) hc, Vault.unlocking]
  set q := showingOf (paramsOf e) w.store with hq
  cases q.unlocks && q.tokenOk && q.fromOk with
  | false => exact ⟨[], w.env, rfl⟩
  | true =>
    simp only [↓reduceIte]
    obtain ⟨env, henv, hlock, -, hsid⟩ :=
      SecurityVault.exec_checkAndRecordSid hr hw (paramsOf e).messageSid
    change match v.passing q.sid (w.env.clock 0) (w.env.lock 0) with
      | none => _ | some sid => _ at hsid
    cases hp : v.passing q.sid (w.env.clock 0) (w.env.lock 0) with
    | none =>
      rw [hp] at hsid
      exact ⟨[], env, by rw [hsid]; rfl⟩
    | some sid =>
      rw [hp] at hsid
      have hsome : q.sid.isSome = true := passing_sid hp
      have hverifier : Config.isMissing (w.store .verifierKey) = false := hc _ (by decide)
      obtain ⟨text, env', hunseal⟩ := SecurityVault.exec_unsealBot
        (w := ⟨w.store.set .secSeenSids (sidsText (v.record (w.env.clock 0) sid).seen), env⟩)
        (paramsOf e).sender henv (by simpa using hverifier)
      rw [hsid]
      have hsecond : env.lock 0 = w.env.lock (0 + 1) := (hlock 0).trans (by rw [if_pos]; exact hsome)
      simp only [Prog.next_ok, Bool.false_eq_true, ↓reduceIte, hunseal, hsecond]
      cases w.env.lock (0 + 1) with
      | false => exact ⟨text, env', rfl⟩
      | true =>
        refine ⟨text, env', ?_⟩
        simp only [↓reduceIte, Prog.next_ok, SecurityVault.resetFailures, Prog.bind_eq,
          Prog.exec_bind, exec_getProperty, Store.set_self, SecurityVault.countOrZero_zero,
          Store.set_ne _ _ (show Key.secFailures ≠ .secAudit by decide)]
        rfl

/-! ## Refinement -/

omit [Platform] in
theorem represents_congr {s s' : Store} (h : Represents s v)
    (hk : ∀ k ∈ [Key.secFailures, .secSealed, .secSeenSids], s' k = s k) : Represents s' v := by
  simp only [List.forall_mem_cons, List.not_mem_nil, false_implies, implies_true, and_true] at hk
  obtain ⟨hf, hs, hn⟩ := hk
  exact ⟨by rw [hf, h.failures], by rw [hs, h.isSealed], by rw [hn]; exact h.seen⟩

omit [Platform] in
theorem represents_record {s : Store} (h : Represents s v) (now : Time) (sid : JSString) :
    Represents (s.set .secSeenSids (sidsText (v.record now sid).seen)) (v.record now sid) :=
  ⟨by simpa [Vault.record] using h.failures, by simpa [Vault.record] using h.isSealed,
    .inr (Store.set_self ..)⟩

/-- A step of the gate: the decision, the state it leaves, and the properties it may touch. -/
structure Follows (w : World) (v : Vault) (q : Showing) (r : Except JSError Decision × World) :
    Prop where
  decision : r.1 = .ok (v.step q (w.env.clock 0) w.env.lock).1
  represents : Represents r.2.store (v.step q (w.env.clock 0) w.env.lock).2
  frame : ∀ k ∉ securityKeys, r.2.store k = w.store k

theorem follows_sealed (e : Option WebhookEvent) (hc : Configured w.store)
    (hr : Represents w.store v) (hw : w.env.Writes) (hs : v.isSealed = true) :
    Follows w v (showingOf (paramsOf e) w.store) ((authorize e).exec host w) := by
  have hstore : w.store .secSealed = some (js "true") := by simpa [hr.isSealed] using hs
  have hframe : ∀ k ∉ securityKeys, ((authorize e).exec host w).2.store k = w.store k :=
    fun k hk => Footprint.unchanged (within_authorize e) hk w
  obtain ⟨text, env, hexec⟩ := exec_authorize_sealed e hc hr hw hstore
  set q := showingOf (paramsOf e) w.store with hq
  suffices h : ((authorize e).exec host w).1 = .ok (v.step q (w.env.clock 0) w.env.lock).1 ∧
      Represents ((authorize e).exec host w).2.store (v.step q (w.env.clock 0) w.env.lock).2 from
    ⟨h.1, h.2, hframe⟩
  rw [hexec, Vault.step, hs]
  simp only [↓reduceIte]
  cases v.unlocking q (w.env.clock 0) (w.env.lock 0) with
  | none => exact ⟨rfl, hr⟩
  | some sid =>
    cases w.env.lock 1 with
    | false => exact ⟨rfl, represents_record hr _ sid⟩
    | true =>
      refine ⟨rfl, ?_, ?_, .inr ?_⟩
      · simp [rearmed]
        decide
      · simp [rearmed]
        decide
      · simp [rearmed]

theorem exec_registerFailure_busy {sender : Option JSString} (hl : w.env.lock 0 = false) :
    (SecurityVault.registerFailure sender).exec host w =
      (.ok ⟨decide (w.store .secSealed = some (js "true")), false⟩, ⟨w.store, w.env.afterLock⟩) := by
  simp [SecurityVault.registerFailure, exec_withScriptLock, hl, Prog.exec_bind,
    SecurityVault.exec_isSealed]

theorem exec_authorize_open (e : Option WebhookEvent) (hc : Configured w.store)
    (hs : w.store .secSealed ≠ some (js "true")) :
    let q := showingOf (paramsOf e) w.store
    (authorize e).exec host w =
      if q.tokenOk && q.fromOk then
        Prog.next
          ((SecurityVault.checkAndRecordSid (Value.ofOption (paramsOf e).messageSid)).exec host w)
          fun replayed w' =>
            if replayed then
              Prog.next ((SecurityVault.recordAudit (js "replay") (paramsOf e).sender).exec host w')
                fun _ w'' => (.ok ⟨false, false⟩, w'')
            else Prog.next (SecurityVault.resetFailures.exec host w')
              fun _ w'' => (.ok ⟨true, false⟩, w'')
      else if q.tokenOk then
        Prog.next ((SecurityVault.registerFailure (paramsOf e).sender).exec host w)
          fun failure w' => (.ok ⟨false, failure.justSealed⟩, w')
      else (.ok ⟨false, false⟩, w) := by
  intro q
  simp only [authorize, Prog.bind_eq, Prog.exec_bind, SecurityVault.exec_isSealed, hs,
    Prog.next_ok, decide_false, Bool.false_eq_true, ↓reduceIte, exec_matchesToken _ hc,
    exec_matchesRecipient _ hc]
  change Prog.exec host (if (!(q.tokenOk && q.fromOk)) = true then _ else _) w = _
  cases q.tokenOk && q.fromOk with
  | false =>
    change Prog.exec host (Prog.bind _ fun _ => if q.tokenOk = true then _ else _) w = _
    cases q.tokenOk <;> simp [Prog.exec_bind]
  | true =>
    simp only [Bool.not_true, Bool.false_eq_true, ↓reduceIte, Prog.exec_bind]
    refine congrArg (Prog.next _) (funext fun replayed => funext fun w' => ?_)
    cases replayed <;> simp [Prog.exec_bind]

theorem follows_open (e : Option WebhookEvent) (hc : Configured w.store)
    (hr : Represents w.store v) (hw : w.env.Writes) (hbound : v.failures < 2 ^ 53)
    (hs : v.isSealed = false) :
    Follows w v (showingOf (paramsOf e) w.store) ((authorize e).exec host w) := by
  have hstore : w.store .secSealed ≠ some (js "true") := by simpa [hr.isSealed] using hs
  have hverifier : Config.isMissing (w.store .verifierKey) = false := hc _ (by decide)
  have hframe : ∀ k ∉ securityKeys, ((authorize e).exec host w).2.store k = w.store k :=
    fun k hk => Footprint.unchanged (within_authorize e) hk w
  have hexec := exec_authorize_open e hc hstore
  set q := showingOf (paramsOf e) w.store with hq
  suffices h : ((authorize e).exec host w).1 = .ok (v.step q (w.env.clock 0) w.env.lock).1 ∧
      Represents ((authorize e).exec host w).2.store (v.step q (w.env.clock 0) w.env.lock).2 from
    ⟨h.1, h.2, hframe⟩
  rw [hexec, Vault.step, hs]
  simp only [Bool.false_eq_true, ↓reduceIte]
  cases hboth : q.tokenOk && q.fromOk with
  | true =>
    simp only [↓reduceIte]
    obtain ⟨env, henv, hlock, -, hsid⟩ :=
      SecurityVault.exec_checkAndRecordSid hr hw (paramsOf e).messageSid
    change match v.passing q.sid _ _ with | none => _ | some sid => _ at hsid
    cases hp : v.passing q.sid (w.env.clock 0) (w.env.lock 0) with
    | none =>
      rw [hp] at hsid
      obtain ⟨w', hrecord, hkeys⟩ := SecurityVault.exec_recordAudit (w := ⟨w.store, env⟩)
        (js "replay") (paramsOf e).sender henv hverifier
      rw [hsid]
      simp only [Prog.next_ok, ↓reduceIte, hrecord]
      exact ⟨trivial, represents_congr hr fun k hk => hkeys k (by rintro rfl; revert hk; decide)⟩
    | some sid =>
      rw [hp] at hsid
      have hsome : q.sid.isSome = true := passing_sid hp
      have hsecond : env.lock 0 = w.env.lock (0 + 1) := (hlock 0).trans (by rw [if_pos]; exact hsome)
      have hr' := represents_record hr (w.env.clock 0) sid
      obtain ⟨w', hreset, hcount, hkeys⟩ := SecurityVault.exec_resetFailures
        (w := ⟨w.store.set .secSeenSids (sidsText (v.record (w.env.clock 0) sid).seen), env⟩)
        hr'.failures hbound.le henv
      rw [hsid]
      simp only [Prog.next_ok, Bool.false_eq_true, ↓reduceIte, hreset]
      refine ⟨trivial, ?_, ?_, ?_⟩
      · rw [hcount, hsecond]
        rfl
      · rw [hkeys _ (by decide)]
        exact hr'.isSealed
      · rw [hkeys _ (by decide)]
        exact hr'.seen
  | false =>
    simp only [Bool.false_eq_true, ↓reduceIte]
    cases q.tokenOk with
    | false => exact ⟨rfl, hr⟩
    | true =>
      simp only [↓reduceIte, Bool.true_and]
      cases hl : w.env.lock 0 with
      | false =>
        rw [exec_registerFailure_busy hl]
        exact ⟨rfl, hr⟩
      | true =>
        obtain ⟨w', hfail, hcount, hflag, hkeys⟩ := SecurityVault.exec_registerFailure
          (paramsOf e).sender hr.failures hbound hstore hw hverifier hl
        rw [hfail]
        refine ⟨rfl, ?_, ?_, ?_⟩
        · change (w'.store .secFailures).getD _ = _
          rw [hcount]
          rfl
        · change _ = decide (w'.store .secSealed = _)
          by_cases h5 : SecurityVault.maxFailures ≤ v.failures + 1 <;>
            simp [h5, hflag, hstore]
        · change w'.store .secSeenSids = none ∧ _ ∨ w'.store .secSeenSids = _
          rw [hkeys _ (by decide)]
          exact hr.seen

/-- **The gate refines the abstract vault.** -/
theorem authorize_follows (e : Option WebhookEvent) (hc : Configured w.store)
    (hr : Represents w.store v) (hw : w.env.Writes) (hbound : v.failures < 2 ^ 53) :
    Follows w v (showingOf (paramsOf e) w.store) ((authorize e).exec host w) := by
  cases hs : v.isSealed with
  | true => exact follows_sealed e hc hr hw hs
  | false => exact follows_open e hc hr hw hbound hs

/-! ## Leaving the sealed state -/

/-- The unlock phrase, the token, the sender, and a MessageSid outside the replay set. -/
def FullUnlock (e : Option WebhookEvent) (w : World) : Prop :=
  let params := paramsOf e
  Unlocks params.body (w.store.secret .unlockSecret) ∧
    params.k = some (w.store.secret .webhookToken) ∧
    params.sender = some (w.store.secret .recipientNumber) ∧
    ∃ s, params.messageSid = some s ∧ trim s ≠ [] ∧
      ¬ w.store.InReplaySet (w.env.clock 0) (trim s)

omit [Platform] in
theorem passing_isSome (hr : Represents w.store v) (m : Option JSString) (free : Bool) :
    (v.passing (SecurityVault.sidOf m) (w.env.clock 0) free).isSome = true ↔
      (∃ s, m = some s ∧ trim s ≠ [] ∧ ¬ w.store.InReplaySet (w.env.clock 0) (trim s)) ∧
        free = true := by
  cases m with
  | none => simp [SecurityVault.sidOf, Vault.passing]
  | some s =>
    by_cases hs : trim s = []
    · simp [SecurityVault.sidOf, Vault.passing, hs]
    · cases free <;> simp [SecurityVault.sidOf, Vault.passing, hs, hr.inReplaySet, Option.filter]

omit [Platform] in
theorem fullUnlock_iff (e : Option WebhookEvent) (hc : Configured w.store)
    (hr : Represents w.store v) :
    (v.unlocking (showingOf (paramsOf e) w.store) (w.env.clock 0) (w.env.lock 0)).isSome = true ↔
      FullUnlock e w ∧ w.env.lock 0 = true := by
  have htoken := getD_eq_iff (x := (paramsOf e).k) (hc.secret_ne_nil (k := .webhookToken) (by decide))
  have hfrom := getD_eq_iff (x := (paramsOf e).sender)
    (hc.secret_ne_nil (k := .recipientNumber) (by decide))
  set q := showingOf (paramsOf e) w.store with hq
  have hsid : (v.passing q.sid (w.env.clock 0) (w.env.lock 0)).isSome = true ↔ _ :=
    passing_isSome hr (paramsOf e).messageSid (w.env.lock 0)
  have hmatch : (q.unlocks && q.tokenOk && q.fromOk) = true ↔
      Unlocks (paramsOf e).body (w.store.secret .unlockSecret) ∧
        (paramsOf e).k = some (w.store.secret .webhookToken) ∧
        (paramsOf e).sender = some (w.store.secret .recipientNumber) := by
    rw [← htoken, ← hfrom, ← and_assoc]
    simp [hq, showingOf]
  rw [Vault.unlocking]
  by_cases hall : (q.unlocks && q.tokenOk && q.fromOk) = true
  · obtain ⟨hu, hk, hf⟩ := hmatch.mp hall
    rw [if_pos hall, hsid]
    exact and_congr_left fun _ => ⟨fun h => ⟨hu, hk, hf, h⟩, fun h => h.2.2.2⟩
  · rw [if_neg hall]
    exact iff_of_false (by simp) fun h => hall (hmatch.mpr ⟨h.1.1, h.1.2.1, h.1.2.2.1⟩)

/-- **Only the full unlock leaves the sealed state.** Everything else is refused and changes
nothing; only a busy lock at the unseal itself leaves a recorded sid behind. -/
theorem authorize_sealed (e : Option WebhookEvent) (w : World) (v : Vault)
    (hc : Configured w.store) (hr : Represents w.store v)
    (hs : w.store .secSealed = some (js "true")) (hw : w.env.Writes) :
    let after := ((authorize e).run host w).state.store
    (Allowed e w ∧ after .secSealed = some (js "false") ∧ after .secFailures = some (js "0") ↔
      FullUnlock e w ∧ w.env.lock 0 = true ∧ w.env.lock 1 = true) ∧
    (¬ (FullUnlock e w ∧ w.env.lock 0 = true ∧ w.env.lock 1 = true) →
      ((authorize e).run host w).outcome = .ok ⟨false, false⟩ ∧
      after .secSealed = some (js "true") ∧
      (after = w.store ∨ FullUnlock e w ∧ w.env.lock 0 = true ∧ w.env.lock 1 = false ∧
        ∀ k ≠ .secSeenSids, after k = w.store k)) := by
  intro after
  obtain ⟨text, env, hexec⟩ := exec_authorize_sealed e hc hr hw hs
  have hunlock := fullUnlock_iff e hc hr
  cases hp : v.unlocking (showingOf (paramsOf e) w.store) (w.env.clock 0) (w.env.lock 0) with
  | none =>
    rw [hp] at hexec hunlock
    have hnot : ¬ (FullUnlock e w ∧ w.env.lock 0 = true) := by simpa using hunlock.symm
    have hout : ((authorize e).run host w).outcome = .ok ⟨false, false⟩ := congrArg Prod.fst hexec
    have hafter : after = w.store := congrArg (fun x => x.2.store) hexec
    refine ⟨iff_of_false ?_ fun h => hnot ⟨h.1, h.2.1⟩, fun _ => ⟨hout, hafter ▸ hs, .inl hafter⟩⟩
    rintro ⟨⟨d, hd, hallowed⟩, -⟩
    rw [hout] at hd
    cases hd
    cases hallowed
  | some sid =>
    rw [hp] at hexec hunlock
    obtain ⟨hfull, hlock⟩ : FullUnlock e w ∧ w.env.lock 0 = true := by simpa using hunlock
    cases hl : w.env.lock 1 with
    | true =>
      simp only [hl, ↓reduceIte] at hexec
      have hafter : after = _ := congrArg (fun x => x.2.store) hexec
      refine ⟨iff_of_true ⟨⟨_, congrArg Prod.fst hexec, rfl⟩, ?_, ?_⟩ ⟨hfull, hlock, rfl⟩,
        fun h => absurd ⟨hfull, hlock, rfl⟩ h⟩
      · simp [hafter, rearmed]
      · simp [hafter, rearmed]
    | false =>
      simp only [hl, Bool.false_eq_true, ↓reduceIte] at hexec
      have hout : ((authorize e).run host w).outcome = .ok ⟨false, false⟩ := congrArg Prod.fst hexec
      have hafter : after = _ := congrArg (fun x => x.2.store) hexec
      refine ⟨iff_of_false ?_ (by simp), fun _ => ⟨hout, ?_, .inr ⟨hfull, hlock, rfl, ?_⟩⟩⟩
      · rintro ⟨⟨d, hd, hallowed⟩, -⟩
        rw [hout] at hd
        cases hd
        cases hallowed
      · simpa [hafter] using hs
      · intro k hk
        rw [hafter]
        exact Store.set_ne _ _ hk

end Specs

section
open AppsScript

theorem authorize_sealed_unlock :
    let w : World := ⟨sampleStore.set .secSealed (js "true"), sampleEnv⟩
    let e : WebhookEvent := ⟨some ⟨some (js "token"), some (js "+15550199"),
      some (js "Unlock open sesame"), some (js "SM1")⟩⟩
    let after := ((authorize (some e)).run host w).state.store
    Allowed (some e) w ∧ after .secSealed = some (js "false") ∧ after .secFailures = some (js "0") := by
  intro w e after
  have hr : Represents w.store ⟨0, true, []⟩ := ⟨by decide, by decide, .inl ⟨by decide, rfl⟩⟩
  have hempty : w.store.array .secSeenSids = [] := by simp [hr.array]
  refine (authorize_sealed (some e) w _ (by decide) hr (by decide) fun _ => rfl).1.mpr
    ⟨⟨by decide +kernel, by decide, by decide, js "SM1", rfl, by decide, ?_⟩, rfl, rfl⟩
  simp [Store.InReplaySet, hempty]

end
end SecurityGate
end Spazito
