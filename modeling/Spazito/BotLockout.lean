import Spazito.BotPool
import Spazito.VaultHistory

set_option autoImplicit false

/-!
# Lockout in any interleaving

What counts towards the seal, and what lifts it, when requests overlap, find the lock busy and fail
to write.
-/
namespace Spazito
open Ecma Script

/-! ## What the changes make of the vault -/

def Change.isFailure : Change → Bool
  | .countFailure => true
  | _ => false

def Change.isZero : Change → Bool
  | .zeroFailures => true
  | _ => false

def Change.isTrip : Change → Bool
  | .trip => true
  | _ => false

def Change.isReopen : Change → Bool
  | .reopen => true
  | _ => false

namespace Bot

variable {b b' : Bot} {c : Change}

theorem change_failures (h : b.change c = some b') : b'.vault.failures =
    if c.isZero then 0 else if c.isFailure then countUp b.vault.failures else b.vault.failures := by
  cases c with
  | add t | remove t | trip | record now sid | claim n =>
    rw [change] at h
    split_ifs at h
    cases h
    rfl
  | setPaused paused | countFailure | zeroFailures | reopen | audit entry =>
    cases h
    rfl

theorem change_isSealed (h : b.change c = some b') : b'.vault.isSealed =
    if c.isReopen then false else c.isTrip || b.vault.isSealed := by
  cases c with
  | add t | remove t | trip | record now sid | claim n =>
    rw [change] at h
    split_ifs at h
    cases h
    rfl
  | setPaused paused | countFailure | zeroFailures | reopen | audit entry =>
    cases h
    rfl

theorem after_failures {changes : List Change} (hzero : b.vault.failures = 0)
    (h : b.after changes = some b') :
    b'.vault.failures ≤ (Log.since Change.isZero changes).countP Change.isFailure := by
  induction changes using List.reverseRecOn generalizing b' with
  | nil =>
    cases h
    exact hzero.le
  | append_singleton changes c ih =>
    obtain ⟨b₁, hb₁, hc⟩ := after_concat h
    have hle := ih hb₁
    rw [change_failures hc, Log.since_concat]
    cases hz : c.isZero
    · cases hf : c.isFailure
      · simpa [hf] using hle
      · have hcount : countUp b₁.vault.failures ≤ b₁.vault.failures + 1 := Nat.min_le_left _ _
        simp only [Bool.false_eq_true, ↓reduceIte, List.countP_append, List.countP_singleton, hf]
        omega
    · simp

theorem after_isSealed {changes : List Change} (hopen : b.vault.isSealed = false)
    (h : b.after changes = some b') :
    b'.vault.isSealed = (Log.since Change.isReopen changes).any Change.isTrip := by
  induction changes using List.reverseRecOn generalizing b' with
  | nil =>
    cases h
    exact hopen
  | append_singleton changes c ih =>
    obtain ⟨b₁, hb₁, hc⟩ := after_concat h
    rw [change_isSealed hc, Log.since_concat, ih hb₁]
    cases c.isReopen
    · simp [Bool.or_comm]
    · simp

theorem after_trip {front rest : List Change} (hzero : b.vault.failures = 0)
    (h : b.after (front ++ .trip :: rest) = some b') :
    SecurityVault.maxFailures ≤ (Log.since Change.isZero front).countP Change.isFailure := by
  rw [after_append] at h
  obtain ⟨b₁, hb₁, h⟩ := Option.bind_eq_some_iff.mp h
  rw [after, List.foldlM_cons] at h
  obtain ⟨b₂, htrip, -⟩ := Option.bind_eq_some_iff.mp h
  rw [change] at htrip
  split_ifs at htrip with hfull
  exact hfull.1.trans (after_failures hzero hb₁)

end Bot

/-! ## Who counts -/

section Pool

variable [Platform] {ι : Type} [DecidableEq ι] {s₀ : Store} {b₀ : Bot} {entry : ι → Entry}

def Probes (s₀ : Store) : Entry → Prop
  | .doPost e =>
    let q := SecurityGate.showingOf (SecurityGate.paramsOf e) s₀
    q.tokenOk = true ∧ q.fromOk = false
  | .runDailyAlert => False

def Unlocks (s₀ : Store) : Entry → Prop
  | .doPost e =>
    let q := SecurityGate.showingOf (SecurityGate.paramsOf e) s₀
    q.tokenOk = true ∧ q.fromOk = true ∧ q.unlocks = true
  | .runDailyAlert => False

variable {log : List (ι × Change)} {s : Store}

theorem Story.probes (h : Story entry b₀ s₀ log s) {i : ι} {front rest : List (ι × Change)}
    (hlog : log = front ++ (i, .countFailure) :: rest) :
    Probes s₀ (entry i) ∧ own i front = [] := by
  have hpermits := h.permitted front i _ rest hlog
  cases hi : entry i with
  | doPost e =>
    rw [hi] at hpermits
    exact ⟨⟨hpermits.1, hpermits.2.1⟩, hpermits.2.2⟩
  | runDailyAlert =>
    rw [hi] at hpermits
    obtain ⟨-, n, hc⟩ := hpermits
    cases hc

theorem Story.unlocks (h : Story entry b₀ s₀ log s) {i : ι} (hmem : (i, .reopen) ∈ log) :
    Unlocks s₀ (entry i) := by
  obtain ⟨front, rest, hlog⟩ := List.append_of_mem hmem
  have hpermits := h.permitted front i _ rest hlog
  cases hi : entry i with
  | doPost e =>
    rw [hi] at hpermits
    obtain ⟨hunlocks, now, sid, hpast⟩ := hpermits
    have hrecorded : Recorded (own i log) := by
      refine ⟨now, sid, ?_⟩
      rw [hlog, own_append, hpast]
      exact List.mem_append_left _ (List.mem_singleton_self _)
    obtain ⟨htoken, hfrom⟩ := (h.course hi).recorded hrecorded
    exact ⟨htoken, hfrom, hunlocks⟩
  | runDailyAlert =>
    rw [hi] at hpermits
    obtain ⟨-, n, hc⟩ := hpermits
    cases hc

omit [Platform] [DecidableEq ι] in
/-- The executions that have counted a failure, in the order of the log. -/
def failing (log : List (ι × Change)) : List ι := (log.filter fun x => x.2.isFailure).map Prod.fst

omit [Platform] [DecidableEq ι] in
theorem mem_failing {i : ι} : i ∈ failing log ↔ (i, .countFailure) ∈ log := by
  simp only [failing, List.mem_map, List.mem_filter, Prod.exists, exists_and_right, exists_eq_right]
  constructor
  · rintro ⟨c, hmem, hc⟩
    cases c with
    | countFailure => exact hmem
    | _ => cases hc
  · exact fun hmem => ⟨_, hmem, rfl⟩

omit [Platform] [DecidableEq ι] in
theorem failing_append (log log' : List (ι × Change)) :
    failing (log ++ log') = failing log ++ failing log' := by simp [failing]

theorem Story.failing_nodup (h : Story entry b₀ s₀ log s) : (failing log).Nodup := by
  suffices hall : ∀ front, front <+: log → (failing front).Nodup from hall log List.prefix_rfl
  intro front
  induction front using List.reverseRecOn with
  | nil => exact fun _ => List.nodup_nil
  | append_singleton front x ih =>
    intro hfront
    have hnodup := ih ((List.prefix_append front [x]).trans hfront)
    obtain ⟨i, c⟩ := x
    rw [failing_append]
    cases c with
    | countFailure =>
      obtain ⟨rest, hrest⟩ := hfront
      have hnew : i ∉ failing front := by
        intro hmem
        have hown := (h.probes (i := i) (hrest.symm.trans (List.append_assoc _ _ _))).2
        rw [List.eq_nil_iff_forall_not_mem] at hown
        exact hown _ (mem_own.mpr (mem_failing.mp hmem))
      exact hnodup.append (List.nodup_singleton i) (by simpa [failing, Change.isFailure] using hnew)
    | _ => simpa [failing, Change.isFailure] using hnodup

/-- **Lockout in any interleaving.** From an open bot without failures, at every instant of every run:
the bot is sealed when the seal has tripped since it was last lifted; only a full unlock lifts it; and
it trips only after failures of five different requests, all with the right token and a wrong sender,
since the failures were last set to zero. -/
theorem pool_lockout (h₀ : b₀.Represents s₀) (hopen : b₀.vault.isSealed = false)
    (hzero : b₀.vault.failures = 0) {t : List (Event GAS ι)}
    {p : Pool GAS JSError (Option JSString) ι Store}
    (hrun : Pool.Course (storeEffect True) (botStart entry s₀) t p) :
    ∃ h, History entry b₀ s₀ t h p ∧
      (p.data .secSealed = some (js "true") ↔
        ∃ j, (j, .trip) ∈ Log.since (fun x : ι × Change => x.2.isReopen) (logOf h)) ∧
      (∀ i, (i, .reopen) ∈ logOf h → Unlocks s₀ (entry i)) ∧
      ∀ front j rest, logOf h = front ++ (j, .trip) :: rest →
        ∃ probes : List ι, probes.Nodup ∧ SecurityVault.maxFailures ≤ probes.length ∧
          ∀ i ∈ probes, Probes s₀ (entry i) ∧
            (i, .countFailure) ∈ Log.since (fun x : ι × Change => x.2.isZero) front := by
  obtain ⟨h, hh⟩ := exists_history h₀ hrun
  have hstory := hh.story
  refine ⟨h, hh, ?_⟩
  generalize logOf h = log at hstory ⊢
  obtain ⟨b, hafter, hrep⟩ := hstory.state
  refine ⟨?_, fun i hmem => hstory.unlocks hmem, fun front j rest hsplit => ?_⟩
  · have hsealed := hrep.vault.isSealed
    rw [Bot.after_isSealed hopen hafter, Log.since_map, List.any_map] at hsealed
    rw [← decide_eq_true_iff (p := p.data .secSealed = some (js "true")), ← hsealed, List.any_eq_true]
    constructor
    · rintro ⟨⟨j, c⟩, hmem, htrip⟩
      cases c with
      | trip => exact ⟨j, hmem⟩
      | _ => cases htrip
    · rintro ⟨j, hmem⟩
      exact ⟨_, hmem, rfl⟩
  · have hsince : (failing (Log.since (fun x : ι × Change => x.2.isZero) front)).Sublist (failing log) := by
      refine List.Sublist.map _ (List.Sublist.filter _ ?_)
      rw [hsplit]
      exact (Log.since_suffix _ front).sublist.trans (List.sublist_append_left _ _)
    have hlog' : log.map Prod.snd = front.map Prod.snd ++ .trip :: rest.map Prod.snd := by simp [hsplit]
    have hcount := Bot.after_trip hzero (hlog' ▸ hafter)
    rw [Log.since_map, List.countP_map, List.countP_eq_length_filter] at hcount
    refine ⟨failing (Log.since (fun x : ι × Change => x.2.isZero) front),
      hstory.failing_nodup.sublist hsince, ?_, fun i hi => ?_⟩
    · rw [failing, List.length_map]
      exact hcount
    · obtain ⟨before, later, hmem⟩ := List.append_of_mem (mem_failing.mp (hsince.subset hi))
      exact ⟨(hstory.probes hmem).1, mem_failing.mp hi⟩

end Pool

section
open AppsScript

def fiveProbes (_ : Fin 5) : Entry := .doPost SecurityGate.probeRequest.event

def probesTurns : List (Fin 5 × Bool) := (List.finRange 5).flatMap fun i => List.replicate 40 (i, true)

def probesPool : Pool GAS JSError (Option JSString) (Fin 5) Store :=
  probesTurns.foldl (Pool.play sampleAnswer) (botStart fiveProbes sampleStore)

def probesEvents : List (Event GAS (Fin 5)) :=
  Pool.eventsOf sampleAnswer (botStart fiveProbes sampleStore) probesTurns

theorem course_probesPool :
    Pool.Course (storeEffect True) (botStart fiveProbes sampleStore) probesEvents probesPool :=
  Pool.course_play storeEffect_sampleAnswer probesTurns

theorem pool_lockout_five_probes : ∃ h, History fiveProbes .initial sampleStore probesEvents h probesPool ∧
    (∃ j, (j, .trip) ∈ Log.since (fun x : Fin 5 × Change => x.2.isReopen) (logOf h)) ∧
    ∃ probes : List (Fin 5), probes.Nodup ∧ SecurityVault.maxFailures ≤ probes.length ∧
      ∀ i ∈ probes, (i, .countFailure) ∈ logOf h := by
  have hsealed : probesPool.data .secSealed = some (js "true") := by decide +kernel
  obtain ⟨h, hh, hiff, -, htrips⟩ := pool_lockout (Bot.represents_initial installed_sampleStore) rfl rfl
    course_probesPool
  obtain ⟨j, hj⟩ := hiff.mp hsealed
  obtain ⟨front, rest, hsplit⟩ := List.append_of_mem ((Log.since_suffix _ _).subset hj)
  obtain ⟨probes, hnodup, hlength, hprobes⟩ := htrips front j rest hsplit
  refine ⟨h, hh, ⟨j, hj⟩, probes, hnodup, hlength, fun i hi => ?_⟩
  rw [hsplit]
  exact List.mem_append_left _ ((Log.since_suffix _ _).subset (hprobes i hi).2)

end
end Spazito
