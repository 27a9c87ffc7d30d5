import Spazito.ScriptLog
import Spazito.VaultGate

set_option autoImplicit false

/-!
# Whole runs of the gate

A history of requests, one after the other, and what the stored security state says about it: the
lockout counts the probes, and an accepted MessageSid is not accepted again while it is remembered.
-/
namespace Spazito
open Ecma Script

/-- A request that the gate has decided. -/
structure Record where
  visit : Visit
  before : Store
  outcome : Except JSError SecurityGate.Decision
  after : Store

def Store.isSealed (s : Store) : Bool := decide (s .secSealed = some (js "true"))

namespace Record

variable (r : Record)

def probe : Bool :=
  let q := SecurityGate.showingOf (SecurityGate.paramsOf r.visit.event) r.before
  q.tokenOk && !q.fromOk

def allowed : Bool :=
  match r.outcome with
  | .ok d => d.allowed
  | .error _ => false

def justSealed : Bool :=
  match r.outcome with
  | .ok d => d.justSealed
  | .error _ => false

def seals : Bool := !r.before.isSealed && r.after.isSealed
def unseals : Bool := r.before.isSealed && !r.after.isSealed

def records : Bool := decide (r.after .secSeenSids ≠ r.before .secSeenSids)

def time : Time := r.visit.env.clock 0

def sid : Option JSString := SecurityVault.sidOf (SecurityGate.paramsOf r.visit.event).messageSid

end Record

namespace SecurityGate

section Runs

variable [Platform]

def visitRecord (s : Store) (x : Visit) : Record :=
  let r := (authorize x.event).exec host ⟨s, x.env⟩
  ⟨x, s, r.1, r.2.store⟩

theorem visitRecord_sid (s : Store) (x : Visit) :
    (visitRecord s x).sid = SecurityVault.sidOf (paramsOf x.event).messageSid := rfl
theorem visitRecord_time (s : Store) (x : Visit) : (visitRecord s x).time = x.env.clock 0 := rfl

def storeAfter (s : Store) (xs : List Visit) : Store :=
  xs.foldl (fun s x => (visitRecord s x).after) s

theorem storeAfter_cons (s : Store) (x : Visit) (xs : List Visit) :
    storeAfter s (x :: xs) = storeAfter (visitRecord s x).after xs := rfl

/-- The requests of a run, each with the store it found and the one it left. -/
def history (s : Store) : List Visit → List Record
  | [] => []
  | x :: xs => visitRecord s x :: history (visitRecord s x).after xs

@[simp] theorem storeAfter_concat (s : Store) (xs : List Visit) (x : Visit) :
    storeAfter s (xs ++ [x]) = (visitRecord (storeAfter s xs) x).after := by
  simp [storeAfter]

@[simp] theorem history_concat (s : Store) (xs : List Visit) (x : Visit) :
    history s (xs ++ [x]) = history s xs ++ [visitRecord (storeAfter s xs) x] := by
  induction xs generalizing s with
  | nil => rfl
  | cons y xs ih => simp [history, ih, storeAfter]

/-! ## The lockout -/

section Lockout

omit [Platform]

variable {v v' : Vault} {d : Decision} {q : Showing} {now : Time}

/-- One step of the abstract state when every lock is free, by what the request showed. -/
theorem step_open (h : v.isSealed = false) (hstep : v.step q now (fun _ => true) = (d, v')) :
    d.justSealed = v'.isSealed ∧
      if q.tokenOk && !q.fromOk then
        d.allowed = false ∧ v'.failures = v.failures + 1 ∧
          v'.isSealed = decide (SecurityVault.maxFailures ≤ v.failures + 1)
      else v'.isSealed = false ∧ v'.failures = if d.allowed then 0 else v.failures := by
  rw [Vault.step, h] at hstep
  cases ht : q.tokenOk <;> cases hf : q.fromOk <;> rw [ht, hf] at hstep
  case true.true =>
    cases hp : v.passing q.sid now true <;> simp [hp] at hstep <;>
      obtain ⟨rfl, rfl⟩ := hstep <;> simp [Vault.record, h]
  all_goals
    simp at hstep
    obtain ⟨rfl, rfl⟩ := hstep
    simp [h]

theorem step_sealed (h : v.isSealed = true) (hstep : v.step q now (fun _ => true) = (d, v')) :
    d.justSealed = false ∧ d.allowed = !v'.isSealed ∧
      v'.failures = if v'.isSealed then v.failures else 0 := by
  rw [Vault.step, h] at hstep
  cases hu : v.unlocking q now true <;> simp [hu] at hstep <;>
    obtain ⟨rfl, rfl⟩ := hstep <;> simp [h]

/-- The count and the flag are what the probes since the last allowed request or unseal make them. -/
structure Tally (v : Vault) (log : List Record) : Prop where
  bounded : v.failures ≤ SecurityVault.maxFailures
  counted : v.isSealed = false →
    v.failures = (Log.since (fun r => r.allowed || r.unseals) log).countP Record.probe ∧
      v.failures < SecurityVault.maxFailures
  isSealed : v.isSealed = true ↔
    Log.Series Record.probe Record.allowed SecurityVault.maxFailures (Log.since Record.unseals log)

theorem Tally.start : Tally Vault.empty [] where
  bounded := by decide
  counted := fun _ => by decide
  isSealed := iff_of_false (by decide) (Log.not_series_nil _ _ (by decide))

theorem Tally.step {log : List Record} {r : Record} (h : Tally v log)
    (hstep : v.step q now (fun _ => true) = (d, v')) (hallowed : r.allowed = d.allowed)
    (hprobe : r.probe = (q.tokenOk && !q.fromOk))
    (hunseals : r.unseals = (v.isSealed && !v'.isSealed)) : Tally v' (log ++ [r]) := by
  cases hs : v.isSealed with
  | false =>
    obtain ⟨-, hcase⟩ := step_open hs hstep
    obtain ⟨hcount, hlt⟩ := h.counted hs
    have hkeeps : r.unseals = false := by rw [hunseals, hs, Bool.false_and]
    have hnone : ¬ Log.Series Record.probe Record.allowed SecurityVault.maxFailures
        (Log.since Record.unseals log) := by simp [← h.isSealed, hs]
    have hcount' : v.failures =
        (Log.since Record.allowed (Log.since Record.unseals log)).countP Record.probe := by
      rw [hcount, Log.since_or]
    rw [← hprobe] at hcase
    cases hp : r.probe with
    | true =>
      rw [hp] at hcase
      obtain ⟨hno, hfailures, hsealed⟩ := hcase
      rw [hno] at hallowed
      refine ⟨by omega, fun hopen => ⟨?_, ?_⟩, ?_⟩
      · simp [hallowed, hkeeps, hp, hfailures, hcount]
      · rw [hsealed, decide_eq_false_iff_not] at hopen
        omega
      · rw [hsealed, Log.since_concat, hkeeps, if_neg Bool.false_ne_true, Log.series_concat,
          or_iff_right hnone]
        simp [hallowed, hp, hcount']
    | false =>
      rw [hp] at hcase
      obtain ⟨hopen, hfailures⟩ := hcase
      have hle : v'.failures ≤ v.failures := by
        rw [hfailures]
        split <;> omega
      refine ⟨by omega, fun _ => ⟨?_, by omega⟩, ?_⟩
      · rw [hfailures, hcount, ← hallowed]
        cases ha : r.allowed <;> simp [hkeeps, hp, ha]
      · rw [hopen, Log.since_concat, hkeeps, if_neg Bool.false_ne_true, Log.series_concat,
          or_iff_right hnone]
        cases ha : r.allowed
        · simpa [ha, hp, ← hcount'] using hlt
        · simp [ha, SecurityVault.maxFailures]
  | true =>
    obtain ⟨-, hopens, hfailures⟩ := step_sealed hs hstep
    rw [hs, Bool.true_and] at hunseals
    cases hs' : v'.isSealed with
    | true =>
      rw [hs'] at hfailures hunseals
      refine ⟨hfailures ▸ h.bounded, by simp [hs'], iff_of_true hs' ?_⟩
      rw [Log.since_concat, hunseals]
      exact (h.isSealed.mp hs).concat r
    | false =>
      rw [hs'] at hfailures hunseals
      refine ⟨by simp [hfailures], fun _ => ?_, iff_of_false (by simp [hs']) ?_⟩
      · simp [hfailures, hunseals, SecurityVault.maxFailures]
      · rw [Log.since_concat, hunseals]
        exact Log.not_series_nil _ _ (by decide)

end Lockout

/-- The store after a history, told by the history. -/
structure Tells (s₀ s : Store) (v : Vault) (log : List Record) : Prop where
  represents : Represents s v
  frame : ∀ k ∉ securityKeys, s k = s₀ k
  tally : Tally v log
  noticed : ∀ r ∈ log, r.justSealed = r.seals

omit [Platform] in
theorem represents_unset {s : Store} (h : ∀ k ∈ securityKeys, s k = none) :
    Represents s Vault.empty :=
  ⟨by rw [h _ (by decide)]; decide, by rw [h _ (by decide)]; decide, .inl ⟨h _ (by decide), rfl⟩⟩

theorem Tells.step {s₀ s : Store} {v : Vault} {log : List Record} (h : Tells s₀ s v log)
    (hc : Configured s₀) {x : Visit} (hlocks : ∀ i, x.env.lock i = true) (hw : x.env.Writes) :
    ∃ v', Tells s₀ (visitRecord s x).after v' (log ++ [visitRecord s x]) := by
  have hbound : v.failures < 2 ^ 53 := h.tally.bounded.trans_lt (by decide)
  have hf := authorize_follows (w := ⟨s, x.env⟩) x.event (hc.of_frame (by decide) h.frame)
    h.represents hw hbound
  set q := showingOf (paramsOf x.event) s with hq
  have hfree : x.env.lock = fun _ => true := funext hlocks
  obtain ⟨d, v', hstep⟩ : ∃ d v', v.step q (x.env.clock 0) (fun _ => true) = (d, v') := ⟨_, _, rfl⟩
  have houtcome : (visitRecord s x).outcome = .ok d := by
    rw [← hfree] at hstep
    exact hf.decision.trans (by rw [hstep])
  have hafter : Represents (visitRecord s x).after v' := by
    have hr := hf.represents
    rw [hfree, hstep] at hr
    exact hr
  have hallowed : (visitRecord s x).allowed = d.allowed := by rw [Record.allowed, houtcome]
  have hjust : (visitRecord s x).justSealed = d.justSealed := by rw [Record.justSealed, houtcome]
  have hbefore : (visitRecord s x).before.isSealed = v.isSealed := h.represents.isSealed.symm
  have hthen : (visitRecord s x).after.isSealed = v'.isSealed := hafter.isSealed.symm
  refine ⟨v', hafter, fun k hk => (hf.frame k hk).trans (h.frame k hk),
    h.tally.step hstep hallowed rfl (by rw [Record.unseals, hbefore, hthen]), fun r hr => ?_⟩
  rcases List.mem_append.mp hr with hr | hr
  · exact h.noticed r hr
  · obtain rfl := List.mem_singleton.mp hr
    rw [hjust, Record.seals, hbefore, hthen]
    cases hs : v.isSealed with
    | false => simpa using (step_open hs hstep).1
    | true => simpa using (step_sealed hs hstep).1

theorem history_tells {s : Store} (hc : Configured s) (hunset : ∀ k ∈ securityKeys, s k = none)
    (xs : List Visit) (hlocks : ∀ x ∈ xs, ∀ i, x.env.lock i = true) (hw : ∀ x ∈ xs, x.env.Writes) :
    ∃ v, Tells s (storeAfter s xs) v (history s xs) := by
  induction xs using List.reverseRecOn with
  | nil => exact ⟨_, represents_unset hunset, fun _ _ => rfl, Tally.start, by simp [history]⟩
  | append_singleton xs x ih =>
    obtain ⟨v, hv⟩ := ih (fun y hy => hlocks y (by simp [hy])) fun y hy => hw y (by simp [hy])
    rw [storeAfter_concat, history_concat]
    exact hv.step hc (hlocks x (by simp)) (hw x (by simp))

/-- **The lockout law.** After any sequence of requests, the failure count is the number of probes
since the last allowed request or unseal, the bot is sealed when five probes came in an unbroken
series, and the request that seals it is the one that is told so. -/
theorem lockout_law (s : Store) (hc : Configured s) (hunset : ∀ k ∈ securityKeys, s k = none)
    (xs : List Visit) (hlocks : ∀ x ∈ xs, ∀ i, x.env.lock i = true)
    (hw : ∀ x ∈ xs, x.env.Writes) :
    let log := history s xs
    let after := storeAfter s xs
    (after.isSealed = false → (after .secFailures).getD (js "0") =
      decimal ((Log.since (fun r => r.allowed || r.unseals) log).countP Record.probe)) ∧
    (after.isSealed = true ↔ Log.Series Record.probe Record.allowed SecurityVault.maxFailures
      (Log.since Record.unseals log)) ∧
    ∀ r ∈ log, r.justSealed = true ↔ r.before.isSealed = false ∧ r.after.isSealed = true := by
  intro log after
  obtain ⟨v, h⟩ := history_tells hc hunset xs hlocks hw
  have hsealed : after.isSealed = v.isSealed := h.represents.isSealed.symm
  refine ⟨fun hopen => ?_, ?_, fun r hr => ?_⟩
  · rw [h.represents.failures, (h.tally.counted (hsealed ▸ hopen)).1]
  · rw [hsealed, h.tally.isSealed]
  · rw [h.noticed r hr, Record.seals]
    simp

end Runs

section
open AppsScript

theorem configured_sampleStore : Configured sampleStore := by decide
theorem unset_sampleStore : ∀ k ∈ securityKeys, sampleStore k = none := by decide

def probeRequest : Visit :=
  ⟨some ⟨some ⟨some (js "token"), some (js "+15550111"), some (js "list"), some (js "SM0")⟩⟩,
    sampleEnv⟩

theorem lockout_law_five_probes :
    let xs := List.replicate 5 probeRequest
    let log := history sampleStore xs
    let after := storeAfter sampleStore xs
    (after.isSealed = false → (after .secFailures).getD (js "0") =
      decimal ((Log.since (fun r => r.allowed || r.unseals) log).countP Record.probe)) ∧
    (after.isSealed = true ↔ Log.Series Record.probe Record.allowed SecurityVault.maxFailures
      (Log.since Record.unseals log)) ∧
    ∀ r ∈ log, r.justSealed = true ↔ r.before.isSealed = false ∧ r.after.isSealed = true := by
  have hx : ∀ x ∈ List.replicate 5 probeRequest, x = probeRequest := fun x hx =>
    List.eq_of_mem_replicate hx
  exact lockout_law sampleStore configured_sampleStore unset_sampleStore _
    (fun x h _ => by rw [hx x h]; rfl) fun x h _ => by rw [hx x h]; rfl

end
end SecurityGate
end Spazito
