import Spazito.EcmaJsonRoundTrip
import Spazito.GateFrame

set_option autoImplicit false

/-!
# The security state, abstractly

The failure count, the sealed flag and the recorded sids, with what the gate makes of them. The
stored properties represent such a state, and the gate of the source follows the abstract one.
-/
namespace Spazito
open Ecma Script

/-- The security state that decides about requests; the audit only records. -/
structure Vault where
  failures : ℕ
  isSealed : Bool
  seen : List (JSString × Time)

/-- What a request shows: the token, the sender, the unlock phrase, and its sid unless that is
blank. -/
structure Showing where
  tokenOk : Bool
  fromOk : Bool
  unlocks : Bool
  sid : Option JSString

namespace Vault

def empty : Vault := ⟨0, false, []⟩

def live (now : Time) (entry : JSString × Time) : Bool :=
  decide ((now.val : ℤ) - entry.2.val < SecurityVault.sidTtlMs)

def fresh (v : Vault) (now : Time) : List (JSString × Time) := v.seen.filter (live now)

def replays (v : Vault) (now : Time) (sid : JSString) : Bool :=
  (v.fresh now).any fun entry => entry.1 = sid

def record (v : Vault) (now : Time) (sid : JSString) : Vault :=
  { v with seen := SecurityVault.lastOf SecurityVault.maxSids (v.fresh now ++ [(sid, now)]) }

def passing (v : Vault) (sid : Option JSString) (now : Time) (free : Bool) : Option JSString :=
  sid.filter fun sid => free && !v.replays now sid

def unlocking (v : Vault) (q : Showing) (now : Time) (free : Bool) : Option JSString :=
  if q.unlocks && q.tokenOk && q.fromOk then v.passing q.sid now free else none

/-- One request at the gate. The locks it asks for may be busy: the first for the sid or the failure
count, the second for the unseal or the reset. -/
def step (v : Vault) (q : Showing) (now : Time) (lock : ℕ → Bool) : SecurityGate.Decision × Vault :=
  if v.isSealed then
    match v.unlocking q now (lock 0) with
    | none => (⟨false, false⟩, v)
    | some sid =>
      if lock 1 then (⟨true, false⟩, { v.record now sid with failures := 0, isSealed := false })
      else (⟨false, false⟩, v.record now sid)
  else if q.tokenOk && q.fromOk then
    match v.passing q.sid now (lock 0) with
    | none => (⟨false, false⟩, v)
    | some sid =>
      (⟨true, false⟩, { v.record now sid with failures := if lock 1 then 0 else v.failures })
  else if q.tokenOk && lock 0 then
    (⟨false, decide (SecurityVault.maxFailures ≤ v.failures + 1)⟩,
      { v with failures := v.failures + 1
               isSealed := decide (SecurityVault.maxFailures ≤ v.failures + 1) })
  else (⟨false, false⟩, v)

end Vault

/-! ## The stored form -/

def sidEntry (entry : JSString × Time) : Value :=
  .obj [(js "sid", .str entry.1), (js "t", .num (.finite entry.2.val))]

def sidsText (seen : List (JSString × Time)) : JSString := Value.stringify (.arr (seen.map sidEntry))

/-- The properties hold this state, as the vault itself writes it. -/
structure Represents (s : Store) (v : Vault) : Prop where
  failures : (s .secFailures).getD (js "0") = decimal v.failures
  isSealed : v.isSealed = decide (s .secSealed = some (js "true"))
  seen : (s .secSeenSids = none ∧ v.seen = []) ∨ s .secSeenSids = some (sidsText v.seen)

theorem time_le (t : Time) : t.val ≤ 2 ^ 53 := t.property.trans (by norm_num)

theorem storable_sidEntry (entry : JSString × Time) : Value.Storable (sidEntry entry) := by
  refine ⟨⟨trivial, ⟨_, time_le entry.2, rfl⟩, trivial⟩, ?_⟩
  have hne : ¬ js "sid" = js "t" := by decide
  have hidx : Value.arrayIndex (js "t") = none ∧ Value.arrayIndex (js "sid") = none := by decide
  simp [Value.ofMembers, Value.setMember, hne, hidx]

theorem parse_sidsText (seen : List (JSString × Time)) :
    Value.parse (sidsText seen) = some (.arr (seen.map sidEntry)) := by
  refine Value.parse_stringify _ (Value.storableElements_iff.mpr fun x hx => ?_)
  obtain ⟨entry, -, rfl⟩ := List.mem_map.mp hx
  exact storable_sidEntry entry

theorem Represents.array {s : Store} {v : Vault} (h : Represents s v) :
    s.array .secSeenSids = v.seen.map sidEntry := by
  rcases h.seen with ⟨hs, hv⟩ | hs
  · simp [Store.array, hs, hv]
  · simp [Store.array, hs, parse_sidsText]

namespace SecurityVault

theorem property_sidEntry (entry : JSString × Time) :
    Value.property (sidEntry entry) (js "sid") = .ok (.str entry.1) ∧
      Value.property (sidEntry entry) (js "t") = .ok (.num (.finite entry.2.val)) := by
  have hne : ¬ js "sid" = js "t" := by decide
  simp [sidEntry, Value.property, Value.lookup, hne]

theorem isUnexpired_sidEntry (now : Time) (entry : JSString × Time) :
    isUnexpired now (sidEntry entry) = .ok (Vault.live now entry) := by
  have ht : (sidEntry entry).truthy = true := rfl
  simp only [isUnexpired, ht, ↓reduceIte, (property_sidEntry entry).2, ok_bind, Value.toNumber,
    Number.sub_natCast _ _ (time_le now) (time_le entry.2), Number.lt, Vault.live]
  have hcast : (((now.val : ℤ) - entry.2.val : ℤ) : ℚ) < ((sidTtlMs : ℕ) : ℚ) ↔
      (now.val : ℤ) - entry.2.val < sidTtlMs := by exact_mod_cast Iff.rfl
  exact congrArg Except.ok (decide_eq_decide.mpr hcast)

theorem keepFresh_sidEntries (now : Time) (seen : List (JSString × Time)) :
    keepFresh now (seen.map sidEntry) = .ok ((seen.filter (Vault.live now)).map sidEntry) := by
  induction seen with
  | nil => rfl
  | cons entry seen ih =>
    rw [List.map_cons, keepFresh, isUnexpired_sidEntry, ok_bind, ih, ok_bind]
    cases h : Vault.live now entry <;> simp [h]

theorem hasSid_sidEntries (sid : JSString) (seen : List (JSString × Time)) :
    hasSid sid (seen.map sidEntry) = .ok (seen.any fun entry => entry.1 = sid) := by
  induction seen with
  | nil => rfl
  | cons entry seen ih =>
    rw [List.map_cons, hasSid, (property_sidEntry entry).1, ok_bind, ih]
    by_cases h : entry.1 = sid <;> simp [isString, h]

end SecurityVault

theorem Represents.inReplaySet {s : Store} {v : Vault} (h : Represents s v) (now : Time)
    (sid : JSString) : s.InReplaySet now sid ↔ v.replays now sid = true := by
  simp only [Store.InReplaySet, h.array, List.mem_map, Vault.replays, Vault.fresh, List.any_filter,
    List.any_eq_true, Bool.and_eq_true, decide_eq_true_eq]
  constructor
  · rintro ⟨_, ⟨entry, hmem, rfl⟩, hun, hsid⟩
    rw [SecurityVault.isUnexpired_sidEntry] at hun
    rw [(SecurityVault.property_sidEntry entry).1] at hsid
    cases hsid
    exact ⟨entry, hmem, by simpa using hun, rfl⟩
  · rintro ⟨entry, hmem, hlive, rfl⟩
    exact ⟨_, ⟨entry, hmem, rfl⟩, by rw [SecurityVault.isUnexpired_sidEntry, hlive],
      (SecurityVault.property_sidEntry entry).1⟩

/-! ## The vault of the source -/

section Specs

variable [Platform] {w : World}

namespace SecurityVault

omit [Platform] in
theorem exec_readJson (key : Key) (w : World) :
    (readJson key).exec host w = (.ok (w.store.array key), w) := by
  obtain ⟨t, ht⟩ := run_readJson key w
  rw [Prog.exec_of_run host ht]

theorem exec_appendAudit (kind : JSString) (sender : Option JSString) (hw : w.env.Writes)
    (hv : Config.isMissing (w.store .verifierKey) = false) : ∃ text,
    (appendAudit kind sender).exec host w =
      (.ok (), ⟨w.store.set .secAudit text, w.env.afterClock.afterWrite⟩) := by
  simp [appendAudit, hashSender, Prog.exec_bind, exec_readJson, exec_require, exec_setProperty, hv,
    hw 0]

/-- The MessageSid of a request, trimmed, unless it is blank. -/
def sidOf (messageSid : Option JSString) : Option JSString :=
  messageSid.bind fun s => if trim s = [] then none else some (trim s)

theorem exec_checkAndRecordSid_locked {v : Vault}
    (hr : w.store.array .secSeenSids = v.seen.map sidEntry) (hw : w.env.Writes) (s : JSString)
    (hs : trim s ≠ []) (hl : w.env.lock 0 = true) :
    (checkAndRecordSid (.str s)).exec host w =
      if v.replays (w.env.clock 0) (trim s) then
        (.ok true, ⟨w.store, w.env.afterLock.afterClock⟩)
      else (.ok false, ⟨w.store.set .secSeenSids
        (sidsText (v.record (w.env.clock 0) (trim s)).seen),
        w.env.afterLock.afterClock.afterWrite⟩) := by
  have htext : Value.stringify (.arr (lastOf maxSids
      ((v.fresh (w.env.clock 0)).map sidEntry ++ [sidEntry (trim s, w.env.clock 0)]))) =
      sidsText (v.record (w.env.clock 0) (trim s)).seen := by
    simp [sidsText, Vault.record, lastOf]
  have hany : ((v.seen.filter (Vault.live (w.env.clock 0))).any fun entry => entry.1 = trim s) =
      v.replays (w.env.clock 0) (trim s) := rfl
  simp only [checkAndRecordSid, hs, ↓reduceIte, exec_withScriptLock, hl, Prog.bind_eq, Prog.exec_bind,
    exec_now, Env.afterLock_clock, exec_readJson, Prog.next_ok, hr, keepFresh_sidEntries,
    exec_eval_ok, hasSid_sidEntries, hany]
  rw [← htext]
  cases v.replays (w.env.clock 0) (trim s) with
  | true => rfl
  | false =>
    simp [Prog.exec_bind, exec_setProperty, hw 0, Vault.fresh, sidEntry]

/-- A sid passes when it is not in the replay set, and is then recorded. A blank one asks for no lock. -/
theorem exec_checkAndRecordSid {v : Vault} (hr : Represents w.store v) (hw : w.env.Writes)
    (m : Option JSString) : ∃ env, env.Writes ∧
    (∀ i, env.lock i = w.env.lock (if (sidOf m).isSome then i + 1 else i)) ∧
    (∃ j, ∀ i, env.clock i = w.env.clock (i + j)) ∧
    match v.passing (sidOf m) (w.env.clock 0) (w.env.lock 0) with
    | none => (checkAndRecordSid (Value.ofOption m)).exec host w = (.ok true, ⟨w.store, env⟩)
    | some sid => (checkAndRecordSid (Value.ofOption m)).exec host w =
        (.ok false, ⟨w.store.set .secSeenSids (sidsText (v.record (w.env.clock 0) sid).seen), env⟩) := by
  cases m with
  | none => exact ⟨w.env, hw, fun _ => rfl, ⟨0, fun _ => rfl⟩, rfl⟩
  | some s =>
    by_cases hs : trim s = []
    · refine ⟨w.env, hw, by simp [sidOf, hs], ⟨0, fun _ => rfl⟩, ?_⟩
      simp [sidOf, hs, Vault.passing, checkAndRecordSid, Value.ofOption]
    · have hsid : sidOf (some s) = some (trim s) := by simp [sidOf, hs]
      rw [hsid, Vault.passing]
      cases hl : w.env.lock 0 with
      | false =>
        refine ⟨w.env.afterLock, hw, fun _ => rfl, ⟨0, fun _ => rfl⟩, ?_⟩
        simp only [Option.filter, Bool.false_and, Bool.false_eq_true, ↓reduceIte, Value.ofOption,
          checkAndRecordSid, hs, exec_withScriptLock, hl]
        rfl
      | true =>
        rw [Value.ofOption, exec_checkAndRecordSid_locked hr.array hw s hs hl]
        cases hrep : v.replays (w.env.clock 0) (trim s) with
        | true =>
          exact ⟨w.env.afterLock.afterClock, hw, fun _ => rfl, ⟨1, fun _ => rfl⟩,
            by simp [Option.filter, hrep]⟩
        | false =>
          exact ⟨w.env.afterLock.afterClock.afterWrite, fun i => hw (i + 1), fun _ => rfl,
            ⟨1, fun _ => rfl⟩, by simp [Option.filter, hrep]⟩

theorem exec_recordAudit (kind : JSString) (sender : Option JSString) (hw : w.env.Writes)
    (hv : Config.isMissing (w.store .verifierKey) = false) : ∃ w',
    (recordAudit kind sender).exec host w = (.ok (), w') ∧
      ∀ k ≠ .secAudit, w'.store k = w.store k := by
  cases hl : w.env.lock 0 with
  | false =>
    refine ⟨⟨w.store, w.env.afterLock⟩, ?_, fun _ _ => rfl⟩
    simp only [recordAudit, exec_withScriptLock, hl]
    rfl
  | true =>
    obtain ⟨text, ht⟩ := exec_appendAudit (w := ⟨w.store, w.env.afterLock⟩) kind sender hw hv
    refine ⟨⟨w.store.set .secAudit text, w.env.afterLock.afterClock.afterWrite⟩, ?_,
      fun k hk => Store.set_ne w.store text hk⟩
    simp only [recordAudit, exec_withScriptLock, hl, ↓reduceIte, ht]

omit [Platform] in
theorem countOrZero_zero : countOrZero (some (js "0")) = .finite 0 := by decide +kernel

omit [Platform] in
theorem countOrZero_of_text {raw : Option JSString} {n : ℕ} (h : raw.getD (js "0") = decimal n)
    (hn : n ≤ 2 ^ 53) : countOrZero raw = .finite n := by
  cases raw with
  | none =>
    have hzero : Number.parseInt (js "0") = .finite 0 := by decide +kernel
    have hparse := Number.parseInt_decimal n hn
    rw [← h, Option.getD_none, hzero] at hparse
    rw [← hparse]
    decide +kernel
  | some text =>
    have hp : parseCount (some text) = .finite n := by
      rw [show text = decimal n from h]
      exact Number.parseInt_decimal n hn
    rw [countOrZero, hp]
    by_cases h0 : n = 0 <;> simp [Number.truthy, h0]

omit [Platform] in
theorem exec_resetFailures {n : ℕ} (hn : (w.store .secFailures).getD (js "0") = decimal n)
    (hbound : n ≤ 2 ^ 53) (hw : w.env.Writes) : ∃ w', resetFailures.exec host w = (.ok (), w') ∧
      (w'.store .secFailures).getD (js "0") = decimal (if w.env.lock 0 then 0 else n) ∧
      ∀ k ≠ .secFailures, w'.store k = w.store k := by
  have hcount := countOrZero_of_text hn hbound
  by_cases h0 : n = 0
  · subst h0
    refine ⟨w, ?_, ?_, fun _ _ => rfl⟩
    · simp only [resetFailures, Prog.bind_eq, Prog.exec_bind, exec_getProperty, Prog.next_ok, hcount]
      rfl
    · rw [hn, ite_self]
  · have hne : ¬ (Number.finite (n : ℚ) = .finite 0) := by simpa using h0
    cases hl : w.env.lock 0 with
    | false =>
      refine ⟨⟨w.store, w.env.afterLock⟩, ?_, hn, fun _ _ => rfl⟩
      simp only [resetFailures, Prog.bind_eq, Prog.exec_bind, exec_getProperty, Prog.next_ok, hcount,
        hne, ↓reduceIte, exec_withScriptLock, hl]
      rfl
    | true =>
      refine ⟨⟨w.store.set .secFailures (js "0"), w.env.afterLock.afterWrite⟩, ?_, ?_,
        fun k hk => Store.set_ne w.store _ hk⟩
      · simp only [resetFailures, Prog.bind_eq, Prog.exec_bind, exec_getProperty, Prog.next_ok, hcount,
          hne, ↓reduceIte, exec_withScriptLock, hl]
        exact exec_setProperty _ _ _ (hw 0)
      · simp only [Store.set_self, ↓reduceIte]
        decide

omit [Platform] in
theorem exec_isSealed (w : World) :
    isSealed.exec host w = (.ok (decide (w.store .secSealed = some (js "true"))), w) :=
  Prog.exec_of_run host (SecurityGate.run_isSealed w)

/-- A counted failure while not sealed: the count goes up by one, and the fifth seals. -/
theorem exec_registerFailure {n : ℕ} (sender : Option JSString)
    (hn : (w.store .secFailures).getD (js "0") = decimal n) (hbound : n + 1 ≤ 2 ^ 53)
    (hs : w.store .secSealed ≠ some (js "true")) (hw : w.env.Writes)
    (hv : Config.isMissing (w.store .verifierKey) = false) (hl : w.env.lock 0 = true) :
    ∃ w', (registerFailure sender).exec host w =
        (.ok ⟨decide (maxFailures ≤ n + 1), decide (maxFailures ≤ n + 1)⟩, w') ∧
      w'.store .secFailures = some (decimal (n + 1)) ∧
      w'.store .secSealed = (if maxFailures ≤ n + 1 then some (js "true") else w.store .secSealed) ∧
      ∀ k ∉ [Key.secFailures, .secSealed, .secAudit], w'.store k = w.store k := by
  have hcount := countOrZero_of_text hn (Nat.le_of_succ_le hbound)
  obtain ⟨failures, hadd, htext, hle⟩ : ∃ failures : Number,
      Number.add (.finite n) (.finite 1) = failures ∧ failures.toText = decimal (n + 1) ∧
        Number.le (.finite maxFailures) failures = decide (maxFailures ≤ n + 1) := by
    refine ⟨.finite (n + 1 : ℕ), by simpa using Number.add_natCast n 1 hbound,
      Number.toText_natCast (n + 1) hbound, ?_⟩
    rw [Number.le, Number.lt, ← decide_not, decide_eq_decide, not_lt, Nat.cast_le]
    · simp
    · simp
  have hwrite : ∀ i, w.env.write i = none := hw
  obtain ⟨a₁, h₁⟩ := exec_appendAudit
    (w := ⟨w.store.set .secFailures (decimal (n + 1)), w.env.afterLock.afterWrite⟩)
    (js "rejected") sender (fun i => hw (i + 1)) (by simpa using hv)
  by_cases h5 : maxFailures ≤ n + 1
  · obtain ⟨a₂, h₂⟩ := exec_appendAudit
      (w := ⟨((w.store.set .secFailures (decimal (n + 1))).set .secAudit a₁).set .secSealed
        (js "true"), w.env.afterLock.afterWrite.afterClock.afterWrite.afterWrite⟩)
      (js "sealed") sender (fun i => hw (i + 1 + 1 + 1)) (by simpa using hv)
    refine ⟨⟨(((w.store.set .secFailures (decimal (n + 1))).set .secAudit a₁).set .secSealed
      (js "true")).set .secAudit a₂,
      w.env.afterLock.afterWrite.afterClock.afterWrite.afterWrite.afterClock.afterWrite⟩,
      ?_, ?_, ?_, ?_⟩
    · simp [registerFailure, exec_withScriptLock, hl, Prog.exec_bind, hcount, hadd, htext,
        exec_setProperty, hwrite, h₁, h₂, reachesSeal, hle, h5, exec_isSealed, hs]
    · simp
    · simp [h5]
    · intro k hk
      simp only [List.mem_cons, List.not_mem_nil, or_false, not_or] at hk
      simp [hk]
  · refine ⟨⟨(w.store.set .secFailures (decimal (n + 1))).set .secAudit a₁,
      w.env.afterLock.afterWrite.afterClock.afterWrite⟩, ?_, ?_, ?_, ?_⟩
    · simp [registerFailure, exec_withScriptLock, hl, Prog.exec_bind, hcount, hadd, htext,
        exec_setProperty, hwrite, h₁, reachesSeal, hle, h5, exec_isSealed, hs]
    · simp
    · simp [h5]
    · intro k hk
      simp only [List.mem_cons, List.not_mem_nil, or_false, not_or] at hk
      simp [hk]

theorem exec_unsealBot (sender : Option JSString) (hw : w.env.Writes)
    (hv : Config.isMissing (w.store .verifierKey) = false) : ∃ text env,
    (unsealBot sender).exec host w =
      if w.env.lock 0 then (.ok true,
        ⟨((w.store.set .secSealed (js "false")).set .secFailures (js "0")).set .secAudit text, env⟩)
      else (.ok false, ⟨w.store, env⟩) := by
  have hwrite : ∀ i, w.env.write i = none := hw
  cases hl : w.env.lock 0 with
  | false =>
    exact ⟨[], w.env.afterLock, by simp [unsealBot, exec_withScriptLock, hl, Prog.exec_bind]⟩
  | true =>
    obtain ⟨text, ht⟩ := exec_appendAudit
      (w := ⟨(w.store.set .secSealed (js "false")).set .secFailures (js "0"),
        w.env.afterLock.afterWrite.afterWrite⟩)
      (js "unsealed") sender (fun i => hw (i + 1 + 1)) (by simpa using hv)
    refine ⟨text, w.env.afterLock.afterWrite.afterWrite.afterClock.afterWrite, ?_⟩
    simp [unsealBot, exec_withScriptLock, hl, Prog.exec_bind, exec_setProperty, hwrite, ht]

end SecurityVault
end Specs
end Spazito
