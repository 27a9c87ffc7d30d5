import Spazito.Recency
import Spazito.ReplayWindow
import Spazito.SignedText
import Spazito.VaultAudit
import Spazito.VaultFaults

set_option autoImplicit false

/-!
# The audit trail over whole runs

The stored trail is the end of everything that was ever appended, and what a request appends is told
by what it showed, what became of it and which locks it got.
-/
namespace Spazito
open Ecma Script

/-! ## What a request appends -/

namespace Record

variable (r : Record)

def authentic : Bool :=
  let q := SecurityGate.showingOf (SecurityGate.paramsOf r.visit.event) r.before
  q.tokenOk && q.fromOk

/-- A failure that is counted: of a probe, while the bot is open, under the lock. -/
def counted : Bool := r.probe && !r.before.isSealed && r.visit.env.lock 0

def replayed : Bool := r.authentic && !r.before.isSealed && !r.allowed

/-- Whether the audit of a replay gets its lock, the one after that of the check. A blank sid is
refused without asking for a lock. -/
def auditLock : Bool := r.visit.env.lock (if r.sid.isSome then 1 else 0)

def events : List JSString :=
  (if r.counted then [js "rejected"] else []) ++ (if r.seals then [js "sealed"] else []) ++
    (if r.replayed && r.auditLock then [js "replay"] else []) ++
    (if r.unseals then [js "unsealed"] else [])

end Record

/-- The events of one request, from the abstract state. -/
def Vault.events (v : Vault) (q : Showing) (now : Time) (lock : ℕ → Bool) : List JSString :=
  if v.isSealed then
    match v.unlocking q now (lock 0) with
    | none => []
    | some _ => if lock 1 then [js "unsealed"] else []
  else if q.tokenOk && q.fromOk then
    match v.passing q.sid now (lock 0) with
    | none => if lock (if q.sid.isSome then 1 else 0) then [js "replay"] else []
    | some _ => []
  else if q.tokenOk && lock 0 then
    js "rejected" :: if SecurityVault.maxFailures ≤ v.failures + 1 then [js "sealed"] else []
  else []

theorem Vault.events_eq (v : Vault) (q : Showing) (now : Time) (lock : ℕ → Bool) :
    v.events q now lock =
      (if q.tokenOk && !q.fromOk && !v.isSealed && lock 0 then [js "rejected"] else []) ++
      (if !v.isSealed && (v.step q now lock).2.isSealed then [js "sealed"] else []) ++
      (if (q.tokenOk && q.fromOk && !v.isSealed && !(v.step q now lock).1.allowed) &&
        lock (if q.sid.isSome then 1 else 0) then [js "replay"] else []) ++
      if v.isSealed && !(v.step q now lock).2.isSealed then [js "unsealed"] else [] := by
  have hrecord (sid : JSString) : (v.record now sid).isSealed = v.isSealed := rfl
  rw [Vault.events, Vault.step]
  cases hs : v.isSealed with
  | true =>
    cases v.unlocking q now (lock 0) with
    | none => simp [hs]
    | some sid => cases lock 1 <;> simp [hrecord, hs]
  | false =>
    cases ht : q.tokenOk <;> cases hf : q.fromOk
    case true.true =>
      cases v.passing q.sid now (lock 0) <;> simp [hrecord, hs]
    case true.false => cases lock 0 <;> simp [hs]
    all_goals simp [hs]

def Vault.kinds (v : Vault) : List (Showing × Time × (ℕ → Bool)) → List JSString
  | [] => []
  | (q, now, lock) :: more => v.events q now lock ++ (v.step q now lock).2.kinds more

namespace SecurityVault

section Specs

variable [Platform] {w : World} {trail : List AuditEntry} {k : JSString}

def senderHash (key : JSString) (sender : Option JSString) : JSString :=
  hexPrefix 3 (computeHmacSha256Signature (sender.getD []) key)

def entryOf (key : JSString) (time : Time) (kind : JSString) (sender : Option JSString) : AuditEntry :=
  ⟨isoString time, kind, senderHash key sender⟩

omit [Platform] in
/-- The store holds the last twenty entries. -/
def Trails (s : Store) (trail : List AuditEntry) : Prop :=
  s.array .secAudit = (lastOf maxAuditEntries trail).map auditEntry

omit [Platform] in
theorem trails_congr {s t : Store} (h : Trails s trail) (hst : t .secAudit = s .secAudit) :
    Trails t trail := by
  rw [Trails, Store.array, hst]
  exact h

omit [Platform] in
theorem trails_set (s : Store) (kept : List AuditEntry) (h : kept = lastOf maxAuditEntries trail) :
    Trails (s.set .secAudit (trailText kept)) trail := by
  simp [Trails, Store.array, parse_trailText, h]

theorem exec_appendAudit_trail (kind : JSString) (sender : Option JSString)
    (ht : Trails w.store trail) (hw : w.env.Writes)
    (hv : Config.isMissing (w.store .verifierKey) = false) (hkey : w.store.secret .verifierKey = k) :
    ∃ text, (appendAudit kind sender).exec host w =
      (.ok (), ⟨w.store.set .secAudit text, w.env.afterClock.afterWrite⟩) ∧
    Trails (w.store.set .secAudit text)
      (trail ++ [entryOf k (w.env.clock 0) kind sender]) := by
  have hkept : lastOf maxAuditEntries (lastOf maxAuditEntries trail ++
      [entryOf k (w.env.clock 0) kind sender]) =
        lastOf maxAuditEntries (trail ++ [entryOf k (w.env.clock 0) kind sender]) :=
    Recency.rtake_rtake_append trail _ maxAuditEntries
  refine ⟨trailText (lastOf maxAuditEntries (lastOf maxAuditEntries trail ++
    [entryOf k (w.env.clock 0) kind sender])), ?_, trails_set _ _ hkept⟩
  have htext : Value.stringify (.arr (lastOf maxAuditEntries ((lastOf maxAuditEntries trail).map
      auditEntry ++ [auditEntry (entryOf k (w.env.clock 0) kind sender)]))) =
      trailText (lastOf maxAuditEntries (lastOf maxAuditEntries trail ++
        [entryOf k (w.env.clock 0) kind sender])) := by
    simp [trailText, lastOf]
  unfold appendAudit
  simp only [Prog.bind_eq]
  rw [Prog.exec_bind_ok host (exec_readJson .secAudit w), Prog.exec_bind_ok host (exec_now w),
    Prog.exec_bind_ok host (exec_hashSender ⟨w.store, w.env.afterClock⟩ sender hv), ht]
  rw [← htext, ← hkey]
  exact exec_setProperty _ _ _ (hw 0)

theorem trails_recordAudit (kind : JSString) (sender : Option JSString) (ht : Trails w.store trail)
    (hw : w.env.Writes) (hv : Config.isMissing (w.store .verifierKey) = false)
    (hkey : w.store.secret .verifierKey = k) : ∃ v,
    (recordAudit kind sender).exec host w = (.ok (), v) ∧ Trails v.store (trail ++
      if w.env.lock 0 then [entryOf k (w.env.clock 0) kind sender] else []) := by
  cases hl : w.env.lock 0 with
  | false =>
    refine ⟨⟨w.store, w.env.afterLock⟩, ?_, by simpa using ht⟩
    simp only [recordAudit, exec_withScriptLock, hl]
    rfl
  | true =>
    obtain ⟨text, hexec, hnext⟩ := exec_appendAudit_trail (w := ⟨w.store, w.env.afterLock⟩) kind sender
      ht hw hv hkey
    refine ⟨⟨w.store.set .secAudit text, w.env.afterLock.afterClock.afterWrite⟩, ?_, hnext⟩
    simp only [recordAudit, exec_withScriptLock, hl, ↓reduceIte, hexec]

theorem trails_unsealBot (sender : Option JSString) (ht : Trails w.store trail) (hw : w.env.Writes)
    (hv : Config.isMissing (w.store .verifierKey) = false) (hkey : w.store.secret .verifierKey = k) :
    ∃ v, (unsealBot sender).exec host w = (.ok (w.env.lock 0), v) ∧ Trails v.store (trail ++
      if w.env.lock 0 then [entryOf k (w.env.clock 0) (js "unsealed") sender] else []) := by
  cases hl : w.env.lock 0 with
  | false =>
    refine ⟨⟨w.store, w.env.afterLock⟩, ?_, by simpa using ht⟩
    simp [unsealBot, exec_withScriptLock, hl, Prog.exec_bind]
  | true =>
    obtain ⟨text, hexec, hnext⟩ := exec_appendAudit_trail
      (w := ⟨(w.store.set .secSealed (js "false")).set .secFailures (js "0"),
        w.env.afterLock.afterWrite.afterWrite⟩) (js "unsealed") sender
      (trails_congr ht (by simp)) (fun i => hw (i + 1 + 1)) (by simpa using hv)
      (by simpa [Store.secret] using hkey)
    refine ⟨⟨((w.store.set .secSealed (js "false")).set .secFailures (js "0")).set .secAudit text,
      w.env.afterLock.afterWrite.afterWrite.afterClock.afterWrite⟩, ?_, hnext⟩
    have hwrite : ∀ i, w.env.write i = none := hw
    simp [unsealBot, exec_withScriptLock, hl, Prog.exec_bind, exec_setProperty, hwrite, hexec]

theorem trails_registerFailure {n : ℕ} (sender : Option JSString) (ht : Trails w.store trail)
    (hn : (w.store .secFailures).getD (js "0") = decimal n) (hbound : n + 1 ≤ 2 ^ 53)
    (hs : w.store .secSealed ≠ some (js "true")) (hw : w.env.Writes)
    (hv : Config.isMissing (w.store .verifierKey) = false) (hkey : w.store.secret .verifierKey = k)
    (hl : w.env.lock 0 = true) :
    Trails ((registerFailure sender).exec host w).2.store (trail ++
      entryOf k (w.env.clock 0) (js "rejected") sender ::
        if maxFailures ≤ n + 1 then [entryOf k (w.env.clock 1) (js "sealed") sender] else []) := by
  have hcount := countOrZero_of_text hn (Nat.le_of_succ_le hbound)
  obtain ⟨failures, hadd, hle⟩ : ∃ failures : Number, Number.add (.finite n) (.finite 1) = failures ∧
      Number.le (.finite maxFailures) failures = decide (maxFailures ≤ n + 1) := by
    refine ⟨.finite (n + 1 : ℕ), by simpa using Number.add_natCast n 1 hbound, ?_⟩
    rw [Number.le, Number.lt, ← decide_not, decide_eq_decide, not_lt, Nat.cast_le]
    · simp
    · simp
  have hwrite : ∀ i, w.env.write i = none := hw
  obtain ⟨a₁, h₁, t₁⟩ := exec_appendAudit_trail
    (w := ⟨w.store.set .secFailures failures.toText, w.env.afterLock.afterWrite⟩)
    (js "rejected") sender (trails_congr ht (by simp)) (fun i => hw (i + 1))
    (by simpa using hv) (by simpa [Store.secret] using hkey)
  by_cases h5 : maxFailures ≤ n + 1
  · obtain ⟨a₂, h₂, t₂⟩ := exec_appendAudit_trail
      (w := ⟨((w.store.set .secFailures failures.toText).set .secAudit a₁).set .secSealed
        (js "true"), w.env.afterLock.afterWrite.afterClock.afterWrite.afterWrite⟩)
      (js "sealed") sender (trails_congr t₁ (by simp)) (fun i => hw (i + 1 + 1 + 1))
      (by simpa using hv) (by simpa [Store.secret] using hkey)
    have hexec : ((registerFailure sender).exec host w).2.store =
        (((w.store.set .secFailures failures.toText).set .secAudit a₁).set .secSealed
          (js "true")).set .secAudit a₂ := by
      simp [registerFailure, exec_withScriptLock, hl, Prog.exec_bind, hcount, hadd,
        exec_setProperty, hwrite, h₁, h₂, reachesSeal, hle, h5, exec_isSealed, hs]
    rw [hexec, if_pos h5]
    simpa using t₂
  · have hexec : ((registerFailure sender).exec host w).2.store =
        (w.store.set .secFailures failures.toText).set .secAudit a₁ := by
      simp [registerFailure, exec_withScriptLock, hl, Prog.exec_bind, hcount, hadd,
        exec_setProperty, hwrite, h₁, reachesSeal, hle, h5, exec_isSealed, hs]
    rw [hexec, if_neg h5]
    exact t₁

end Specs
end SecurityVault

/-! ## One request -/

namespace SecurityGate
open SecurityVault

section Runs

variable [Platform] {v : Vault} {trail : List AuditEntry}

/-- What a request has appended for its events: the time and the hash of its sender with each. -/
structure Appended (key : JSString) (x : Visit) (events : List JSString) (group : List AuditEntry) :
    Prop where
  kinds : group.map AuditEntry.k = events
  senders : ∀ y ∈ group, y.s = senderHash key (paramsOf x.event).sender
  times : ∀ y ∈ group, ∃ i, y.t = isoString (x.env.clock i)

theorem appended_nil (key : JSString) (x : Visit) : Appended key x [] [] :=
  ⟨rfl, by simp, by simp⟩

theorem appended_one (key : JSString) (x : Visit) {time : Time} (kind : JSString)
    (h : ∃ i, time = x.env.clock i) :
    Appended key x [kind] [entryOf key time kind (paramsOf x.event).sender] := by
  obtain ⟨i, rfl⟩ := h
  refine ⟨rfl, fun y hy => ?_, fun y hy => ⟨i, ?_⟩⟩
  · rw [List.mem_singleton.mp hy]
    rfl
  · rw [List.mem_singleton.mp hy]
    rfl

theorem Appended.append {key : JSString} {x : Visit} {es fs : List JSString}
    {g h : List AuditEntry} (hg : Appended key x es g) (hh : Appended key x fs h) :
    Appended key x (es ++ fs) (g ++ h) :=
  ⟨by rw [List.map_append, hg.kinds, hh.kinds],
    List.forall_mem_append.mpr ⟨hg.senders, hh.senders⟩,
    List.forall_mem_append.mpr ⟨hg.times, hh.times⟩⟩

omit [Platform] in
theorem next_state {α β : Type} (y : Except JSError α × World) {f : α → World → Except JSError β × World}
    (hf : ∀ a w, (f a w).2 = w) : (Prog.next y f).2 = y.2 := by
  rw [Prog.next]
  split
  · exact hf _ _
  · rfl

omit [Platform] in
theorem trails_resetFailures {α : Type} {u : World} {f : Unit → World → Except JSError α × World}
    (hf : ∀ a w, (f a w).2 = w) (ht : Trails u.store trail) :
    Trails (Prog.next (resetFailures.exec host u) f).2.store trail := by
  refine trails_congr ht ?_
  rw [next_state _ hf]
  exact Footprint.unchanged (F := ⟨fun _ => True, (· = .secFailures), fun _ => False⟩)
    (within_resetFailures trivial rfl) (by decide) u

theorem trails_sealed (s : Store) (x : Visit) (hc : Configured s) (hr : Represents s v)
    (hw : x.env.Writes) (hs : v.isSealed = true) (ht : Trails s trail) : ∃ group,
    Appended (s.secret .verifierKey) x
      (v.events (showingOf (paramsOf x.event) s) (x.env.clock 0) x.env.lock) group ∧
    Trails ((authorize x.event).exec host ⟨s, x.env⟩).2.store (trail ++ group) := by
  have hstore : s .secSealed = some (js "true") := by simpa [hr.isSealed] using hs
  set q := showingOf (paramsOf x.event) s with hq
  rw [exec_authorize_unlock (w := ⟨s, x.env⟩) x.event hstore,
    exec_tryUnseal_comparisons (w := ⟨s, x.env⟩) (paramsOf x.event) hc, Vault.events, if_pos hs,
    Vault.unlocking, ← hq]
  have hnone : ∃ group, Appended (s.secret .verifierKey) x [] group ∧ Trails s (trail ++ group) :=
    ⟨[], appended_nil _ _, by simpa using ht⟩
  cases q.unlocks && q.tokenOk && q.fromOk with
  | false => exact hnone
  | true =>
    simp only [↓reduceIte]
    obtain ⟨env, henv, hlock, ⟨j, hclock⟩, hsid⟩ := SecurityVault.exec_checkAndRecordSid
      (w := ⟨s, x.env⟩) hr hw (paramsOf x.event).messageSid
    change match v.passing q.sid _ _ with | none => _ | some sid => _ at hsid
    cases hp : v.passing q.sid (x.env.clock 0) (x.env.lock 0) with
    | none =>
      rw [hp] at hsid
      rw [hsid]
      exact hnone
    | some sid =>
      rw [hp] at hsid
      have hsecond : env.lock 0 = x.env.lock 1 :=
        (hlock 0).trans (by rw [if_pos]; exact passing_sid hp)
      have hverifier : Config.isMissing (s .verifierKey) = false := hc _ (by decide)
      obtain ⟨u, hunseal, hnext⟩ := trails_unsealBot (k := s.secret .verifierKey)
        (w := ⟨s.set .secSeenSids (sidsText (v.record (x.env.clock 0) sid).seen), env⟩)
        (paramsOf x.event).sender (trails_congr ht (by simp)) henv (by simpa using hverifier)
        (by simp [Store.secret])
      rw [hsid]
      simp only [Prog.next_ok, Bool.false_eq_true, ↓reduceIte, hunseal]
      dsimp only at hnext
      rw [hsecond] at hnext ⊢
      cases hl : x.env.lock 1 with
      | false =>
        rw [hl] at hnext
        exact ⟨[], appended_nil _ _, hnext⟩
      | true =>
        rw [hl] at hnext
        refine ⟨_, appended_one _ x (js "unsealed") ⟨_, hclock 0⟩, ?_⟩
        exact trails_resetFailures (fun _ _ => rfl) hnext

theorem trails_open (s : Store) (x : Visit) (hc : Configured s) (hr : Represents s v)
    (hw : x.env.Writes) (hbound : v.failures < 2 ^ 53) (hs : v.isSealed = false)
    (ht : Trails s trail) : ∃ group,
    Appended (s.secret .verifierKey) x
      (v.events (showingOf (paramsOf x.event) s) (x.env.clock 0) x.env.lock) group ∧
    Trails ((authorize x.event).exec host ⟨s, x.env⟩).2.store (trail ++ group) := by
  have hstore : s .secSealed ≠ some (js "true") := by simpa [hr.isSealed] using hs
  have hverifier : Config.isMissing (s .verifierKey) = false := hc _ (by decide)
  have hexec := exec_authorize_open (w := ⟨s, x.env⟩) x.event hc hstore
  set q := showingOf (paramsOf x.event) s with hq
  rw [hexec, Vault.events, hs]
  simp only [Bool.false_eq_true, ↓reduceIte]
  cases q.tokenOk && q.fromOk with
  | true =>
    simp only [↓reduceIte]
    obtain ⟨env, henv, hlock, ⟨j, hclock⟩, hsid⟩ := SecurityVault.exec_checkAndRecordSid
      (w := ⟨s, x.env⟩) hr hw (paramsOf x.event).messageSid
    change match v.passing q.sid _ _ with | none => _ | some sid => _ at hsid
    cases hp : v.passing q.sid (x.env.clock 0) (x.env.lock 0) with
    | none =>
      rw [hp] at hsid
      obtain ⟨u, hrecord, hnext⟩ := trails_recordAudit (k := s.secret .verifierKey)
        (w := ⟨s, env⟩) (js "replay") (paramsOf x.event).sender ht henv hverifier rfl
      have hsecond : env.lock 0 = x.env.lock (if q.sid.isSome then 1 else 0) := hlock 0
      rw [hsid]
      simp only [Prog.next_ok, ↓reduceIte, hrecord]
      dsimp only at hnext
      rw [hsecond] at hnext
      cases hl : x.env.lock (if q.sid.isSome then 1 else 0) with
      | false =>
        rw [hl] at hnext
        exact ⟨[], appended_nil _ _, hnext⟩
      | true =>
        rw [hl] at hnext
        exact ⟨_, appended_one _ x (js "replay") ⟨_, hclock 0⟩, hnext⟩
    | some sid =>
      rw [hp] at hsid
      rw [hsid]
      simp only [Prog.next_ok, Bool.false_eq_true, ↓reduceIte]
      refine ⟨[], appended_nil _ _, ?_⟩
      rw [List.append_nil]
      exact trails_resetFailures (fun _ _ => rfl) (trails_congr ht (by simp))
  | false =>
    simp only [Bool.false_eq_true, ↓reduceIte]
    cases q.tokenOk with
    | false => exact ⟨[], appended_nil _ _, by simpa using ht⟩
    | true =>
      simp only [↓reduceIte, Bool.true_and]
      cases hl : x.env.lock 0 with
      | false =>
        rw [exec_registerFailure_busy (w := ⟨s, x.env⟩) hl]
        exact ⟨[], appended_nil _ _, by simpa using ht⟩
      | true =>
        have hfail := trails_registerFailure (k := s.secret .verifierKey) (w := ⟨s, x.env⟩)
          (paramsOf x.event).sender ht hr.failures hbound hstore hw hverifier rfl hl
        have hseal : Appended (s.secret .verifierKey) x
            (if maxFailures ≤ v.failures + 1 then [js "sealed"] else [])
            (if maxFailures ≤ v.failures + 1 then
              [entryOf (s.secret .verifierKey) (x.env.clock 1) (js "sealed") (paramsOf x.event).sender]
            else []) := by
          split_ifs
          · exact appended_one _ x _ ⟨1, rfl⟩
          · exact appended_nil _ _
        refine ⟨_, (appended_one _ x (js "rejected") ⟨0, rfl⟩).append hseal, ?_⟩
        rw [next_state _ fun _ _ => rfl]
        exact hfail

theorem events_visitRecord {s : Store} {x : Visit} (hr : Represents s v)
    (hf : Follows ⟨s, x.env⟩ v (showingOf (paramsOf x.event) s)
      ((authorize x.event).exec host ⟨s, x.env⟩)) :
    (visitRecord s x).events =
      v.events (showingOf (paramsOf x.event) s) (x.env.clock 0) x.env.lock := by
  have hbefore : (visitRecord s x).before.isSealed = v.isSealed := hr.isSealed.symm
  have hafter : (visitRecord s x).after.isSealed = _ := hf.represents.isSealed.symm
  have hallowed : (visitRecord s x).allowed = (v.step (showingOf (paramsOf x.event) s)
      (x.env.clock 0) x.env.lock).1.allowed := by
    have hout : (visitRecord s x).outcome = _ := hf.decision
    rw [Record.allowed, hout]
  rw [Vault.events_eq, Record.events, Record.counted, Record.seals, Record.replayed, Record.unseals,
    hbefore, hafter, hallowed]
  rfl

/-! ## Whole runs -/

/-- What a run has appended, request by request. -/
def Logged (key : JSString) (log : List Record) (groups : List (List AuditEntry)) : Prop :=
  List.Forall₂ (fun r group => Appended key r.visit r.events group) log groups

theorem Logged.kinds {key : JSString} {log : List Record} {groups : List (List AuditEntry)}
    (h : Logged key log groups) :
    groups.flatten.map AuditEntry.k = (log.map Record.events).flatten := by
  induction h with
  | nil => rfl
  | cons hgroup _ ih => rw [List.flatten_cons, List.map_append, hgroup.kinds, ih, List.map_cons,
      List.flatten_cons]

theorem Reaches.events {s₀ s : Store} (h : Reaches s₀ s v) (hc : Configured s₀) (xs : List Visit)
    (hw : ∀ x ∈ xs, x.env.Writes) :
    ((history s xs).map Record.events).flatten = v.kinds (xs.map (showing s₀)) := by
  induction xs generalizing s v with
  | nil => rfl
  | cons x xs ih =>
    obtain ⟨hx, hxs⟩ := List.forall_mem_cons.mp hw
    have hbound : v.failures < 2 ^ 53 := h.bounded.1.trans_lt (by decide)
    have hnext := (h.step hc hx).1
    rw [showingOf_frame h.frame] at hnext
    rw [history, List.map_cons, List.flatten_cons, ih hnext hxs, events_visitRecord h.represents
      (authorize_follows (w := ⟨s, x.env⟩) x.event (hc.of_frame (by decide) h.frame) h.represents hx
        hbound), showingOf_frame h.frame]
    rfl

theorem Reaches.trails {s₀ s : Store} (h : Reaches s₀ s v) (hc : Configured s₀) {x : Visit}
    (hw : x.env.Writes) (ht : Trails s trail) : ∃ group,
    Appended (s₀.secret .verifierKey) x (visitRecord s x).events group ∧
      Trails (visitRecord s x).after (trail ++ group) := by
  have hconf : Configured s := hc.of_frame (by decide) h.frame
  have hbound : v.failures < 2 ^ 53 := h.bounded.1.trans_lt (by decide)
  have hkey : s.secret .verifierKey = s₀.secret .verifierKey := by
    rw [Store.secret, h.frame _ (by decide)]
    rfl
  rw [events_visitRecord h.represents
    (authorize_follows (w := ⟨s, x.env⟩) x.event hconf h.represents hw hbound), ← hkey]
  cases hs : v.isSealed with
  | true => exact trails_sealed s x hconf h.represents hw hs ht
  | false => exact trails_open s x hconf h.represents hw hbound hs ht

theorem history_trails {s : Store} (hc : Configured s) (hunset : ∀ k ∈ securityKeys, s k = none)
    (xs : List Visit) (hw : ∀ x ∈ xs, x.env.Writes) : ∃ groups,
    Logged (s.secret .verifierKey) (history s xs) groups ∧
      Trails (storeAfter s xs) groups.flatten ∧ ∃ v, Reaches s (storeAfter s xs) v := by
  induction xs using List.reverseRecOn with
  | nil =>
    refine ⟨[], .nil, ?_, _, Reaches.start hunset⟩
    have hnone : s .secAudit = none := hunset _ (by decide)
    simp [storeAfter, Trails, Store.array, hnone, lastOf]
  | append_singleton xs x ih =>
    obtain ⟨hw, hwx⟩ := List.forall_mem_append.mp hw
    obtain ⟨groups, hlogged, htrails, v, hreaches⟩ := ih hw
    obtain ⟨group, hgroup, hnext⟩ := hreaches.trails hc (hwx x (by simp)) htrails
    rw [storeAfter_concat, history_concat]
    refine ⟨groups ++ [group], List.rel_append hlogged (.cons hgroup .nil), ?_, _,
      (hreaches.step hc (hwx x (by simp))).1⟩
    rwa [List.flatten_concat]

omit [Platform] in
theorem exec_recentAudit (n : ℕ) {s : Store} (env : Env) (ht : Trails s trail) :
    ((recentAudit n).run host ⟨s, env⟩).outcome =
      .ok (((lastOf maxAuditEntries trail).reverse.take n).map auditEntry) := by
  have hlast {α : Type} (xs : List α) : (lastOf n xs).reverse = xs.reverse.take n := by
    change (xs.rtake n).reverse = _
    rw [List.rtake_eq_reverse_take_reverse, List.reverse_reverse]
  have hexec : (recentAudit n).exec host ⟨s, env⟩ = (.ok (lastOf n (s.array .secAudit)).reverse, _) :=
    Prog.exec_bind_ok host (exec_readJson .secAudit ⟨s, env⟩)
  have hout := congrArg Prod.fst hexec
  change ((recentAudit n).run host ⟨s, env⟩).outcome = _ at hout
  rw [hout, hlast, ht, List.map_take, List.map_reverse]

/-- **The audit ring holds exactly the recent security events.** -/
theorem audit_exact (s : Store) (hc : Configured s) (hunset : ∀ k ∈ securityKeys, s k = none)
    (xs : List Visit) (hw : ∀ x ∈ xs, x.env.Writes) : ∃ groups,
    Logged (s.secret .verifierKey) (history s xs) groups ∧
    (storeAfter s xs).array .secAudit = (lastOf 20 groups.flatten).map auditEntry ∧
    (∀ n env, 1 ≤ n → ((recentAudit n).run host ⟨storeAfter s xs, env⟩).outcome =
      .ok (((lastOf 20 groups.flatten).reverse.take n).map auditEntry)) ∧
    ∀ y ∈ groups.flatten, y.s.length = 6 ∧ ∀ u ∈ y.s, isHexDigit u = true ∧ isLower u = false := by
  obtain ⟨groups, hlogged, htrails, -⟩ := history_trails hc hunset xs hw
  refine ⟨groups, hlogged, htrails, fun n env _ => exec_recentAudit n env htrails, fun y hy => ?_⟩
  obtain ⟨group, hmem, hy⟩ := List.mem_flatten.mp hy
  obtain ⟨r, hgroup⟩ : ∃ r : Record, Appended (s.secret .verifierKey) r.visit r.events group := by
    obtain ⟨i, hi, rfl⟩ := List.getElem_of_mem hmem
    exact ⟨_, (List.forall₂_iff_get.mp hlogged).2 i (hlogged.length_eq ▸ hi) hi⟩
  rw [hgroup.senders y hy]
  obtain ⟨hlen, hunits⟩ := hexPrefix_units (s.secret .verifierKey)
    ((paramsOf r.visit.event).sender.getD []) (n := 3) (by omega)
  exact ⟨hlen, fun u hu => ⟨(hunits u hu).1, (hunits u hu).2.2⟩⟩

end Runs

section
open AppsScript

def ownRequest (body sid : JSString) : Visit :=
  ⟨some ⟨some ⟨some (js "token"), some (js "+15550199"), some body, some sid⟩⟩, sampleEnv⟩

/-- Strangers seal the bot; its owner unlocks it, and a captured text is sent again and again. -/
def mixedVisits : List Visit :=
  List.replicate 5 probeRequest ++ ownRequest (js "unlock open sesame") (js "SM1") ::
    List.replicate 15 (ownRequest (js "list") (js "SM2"))

/-- Of the twenty-one events the first is no longer held. -/
theorem audit_exact_mixed : ∃ groups : List (List AuditEntry),
    Logged (js "key") (history sampleStore mixedVisits) groups ∧
    groups.flatten.map AuditEntry.k = List.replicate 5 (js "rejected") ++
      js "sealed" :: js "unsealed" :: List.replicate 14 (js "replay") ∧
    (storeAfter sampleStore mixedVisits).array .secAudit = groups.flatten.tail.map auditEntry ∧
    ((recentAudit 3).run host ⟨storeAfter sampleStore mixedVisits, sampleEnv⟩).outcome =
      .ok ((groups.flatten.tail.reverse.take 3).map auditEntry) := by
  have hw : ∀ x ∈ mixedVisits, x.env.Writes := by
    intro x hx
    rcases List.mem_append.mp hx with hx | hx
    · rw [List.eq_of_mem_replicate hx]
      exact fun _ => rfl
    · rcases List.mem_cons.mp hx with rfl | hx
      · exact fun _ => rfl
      · rw [List.eq_of_mem_replicate hx]
        exact fun _ => rfl
  obtain ⟨groups, hlogged, hstored, hrecent, -⟩ :=
    audit_exact sampleStore configured_sampleStore unset_sampleStore mixedVisits hw
  have hkinds : groups.flatten.map AuditEntry.k = List.replicate 5 (js "rejected") ++
      js "sealed" :: js "unsealed" :: List.replicate 14 (js "replay") := by
    rw [hlogged.kinds, (Reaches.start unset_sampleStore).events configured_sampleStore _ hw]
    decide +kernel
  have hlength : groups.flatten.length = 21 := by
    rw [← List.length_map (f := AuditEntry.k), hkinds]
    rfl
  have hlast : lastOf 20 groups.flatten = groups.flatten.tail := by
    rw [lastOf, hlength, List.drop_one]
  refine ⟨groups, hlogged, hkinds, hstored.trans (by rw [hlast]), ?_⟩
  rw [hrecent 3 sampleEnv (by decide), hlast]

end
end SecurityGate
end Spazito
