import Spazito.StoreRules
import Spazito.WatchlistPool

set_option autoImplicit false

/-!
# Operations of the watchlist alone

An operation that nobody interrupts does what the abstract watchlist does, or finds the lock busy, or
throws; in the last two cases nothing has changed.
-/
namespace Spazito
open Ecma Script

theorem storeEffect_host {ι : Type} (i : ι) (o : Op) (w : World) :
    storeEffect True i o w.store (host (.op o) w).1 (host (.op o) w).2.store := by
  cases o with
  | setProperty k v =>
    cases he : w.env.write 0 with
    | none =>
      rw [host_setProperty w k v he]
      exact .inl ⟨rfl, rfl⟩
    | some e =>
      rw [host_setProperty_error w k v e he]
      exact .inr ⟨trivial, ⟨e, rfl⟩, rfl⟩
  | getProperty k => exact ⟨rfl, rfl⟩
  | fetch _ | sleep _ | now | console _ _ => rfl

namespace Watchlist

variable [Platform]

/-- How an operation on this watchlist ends. -/
inductive Ended (op : Operation) (a : Tracked) (w : World) (r : Result GAS JSError Outcome World) : Prop
  | done (out : Outcome) (a' : Tracked) (happly : op.apply a = .ok (out, a'))
      (hout : r.outcome = .ok out) (hrep : Represents a' (stored r.state.store))
  | busy (hlock : w.env.lock 0 = false) (hout : r.outcome = .ok .busy)
      (hsame : stored r.state.store = stored w.store)
  | threw (e : JSError) (hout : r.outcome = .error e) (hsame : stored r.state.store = stored w.store)

theorem ended_mutate {op : Operation} {mutate : Action Outcome} {a : Tracked} {w : World}
    (hplan : op.plan = .ok (.inr mutate)) (ha : Represents a (stored w.store)) :
    (∃ out a', op.apply a = .ok (out, a') ∧ Represents a' (stored (mutate.run host w).state.store) ∧
      (mutate.run host w).outcome = .ok out) ∨
      (∃ e, (mutate.run host w).outcome = .error e) ∧
        stored (mutate.run host w).state.store = stored w.store := by
  have hhost : ∀ (o : Op) (w : World), poolEffect (fun _ : Unit => .mutate op) () o w.store
      (host (.op o) w).1 (host (.op o) w).2.store :=
    fun o w => ⟨Footprint.allows_any _, storeEffect_host () o w⟩
  exact ends_plan hplan ha
    (ends_of_run World.store (fun _ => trivial) hhost (Operation.lockless_plan hplan) w)

theorem ended_program (op : Operation) {a : Tracked} {w : World} (ha : Represents a (stored w.store)) :
    Ended op a w (op.program.run host w) := by
  rw [Operation.program_eq]
  cases hp : op.plan with
  | error f => exact .threw (Platform.faultError f) rfl rfl
  | ok step =>
    cases step with
    | inl out =>
      obtain ⟨t, rfl, happly⟩ := Operation.plan_inl hp
      exact .done _ a (happly a) rfl ha
    | inr mutate =>
      change Ended op a w ((withLock mutate).run host w)
      rw [withLock, run_withScriptLock]
      split_ifs with hlock
      · rcases ended_mutate (w := ⟨w.store, w.env.afterLock⟩) hp ha with
          ⟨out, a', happly, hrep, hout⟩ | ⟨⟨e, hout⟩, hsame⟩
        · exact .done out a' happly hout hrep
        · exact .threw e hout hsame
      · exact .busy (by simpa using hlock) rfl rfl

theorem within_has {raw : Value} {F : Footprint} (hr : F.reads .watchlist) :
    (has raw).Within F.allows :=
  (within_tickers hr).bind fun _ => (Footprint.eval _).bind fun _ => trivial

theorem within_isFull {F : Footprint} (hr : F.reads .watchlist) : isFull.Within F.allows :=
  (within_tickers hr).bind fun _ => trivial

theorem within_program (op : Operation) {F : Footprint} (hr : F.reads .watchlist)
    (hw : F.writes .watchlist ∧ F.writes .paused) : op.program.Within F.allows := by
  have hstore (ts : List JSString) (out : Outcome) :
      ((store ts).bind fun _ => .ret out : Action Outcome).Within F.allows :=
    (Footprint.setProperty hw.1).bind fun _ => trivial
  cases op with
  | add raw =>
    refine (Footprint.eval _).bind fun t => (Footprint.eval _).bind fun valid => ?_
    split_ifs
    · trivial
    · refine Footprint.withScriptLock ((within_tickers hr).bind fun current => ?_) trivial
      split_ifs
      · trivial
      · trivial
      · exact hstore _ _
  | remove raw =>
    refine (Footprint.eval _).bind fun t =>
      Footprint.withScriptLock ((within_tickers hr).bind fun current => ?_) trivial
    split_ifs
    · trivial
    · exact hstore _ _
  | setPaused b =>
    exact Footprint.withScriptLock ((Footprint.setProperty hw.2).bind fun _ => trivial) trivial

def Stored (s : Store) : Prop := ∃ a, Represents a (stored s)

omit [Platform] in
theorem stored_congr {s t : Store} (h : Stored s) (hw : t .watchlist = s .watchlist)
    (hp : t .paused = s .paused) : Stored t := by
  rwa [Stored, show stored t = stored s from Prod.ext hw hp]

omit [Platform] in
theorem maintains_sparing {α : Type} {p : Action α} (hp : p.Within sparing.allows) :
    Maintains Stored p :=
  Footprint.maintains hp fun _ _ hs hst => stored_congr hs (hst _ (by simp)) (hst _ (by simp))

theorem maintains_program (op : Operation) : Maintains Stored op.program := by
  refine Prog.Triple.keeps fun w ⟨a, ha⟩ => ?_
  cases ended_program op ha with
  | done out a' _ _ hrep => exact ⟨a', hrep⟩
  | busy _ _ hsame | threw _ _ hsame => exact ⟨a, hsame ▸ ha⟩

end Watchlist
end Spazito
