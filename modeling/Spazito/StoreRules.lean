import Spazito.PlatformRuns
import Spazito.ScriptRules

set_option autoImplicit false

/-!
# What a script makes of the properties

The rules for pre- and postconditions, for conditions on the store alone: neither a busy lock nor a
failed write can break them.
-/
namespace Spazito
open Ecma Script

section Rules

variable {α β : Type} {I : Store → Prop} {Q : α → Store → Prop} {J : Store → Prop}

/-- From a store with `I` a script ends well in `Q`, or throws and leaves a store with `J`. -/
abbrev Leaves (I : Store → Prop) (p : Action α) (Q : α → Store → Prop) (J : Store → Prop) : Prop :=
  p.Triple host (fun w => I w.store) (fun a w => Q a w.store) fun w => J w.store

abbrev Maintains (I : Store → Prop) (p : Action α) : Prop := Leaves I p (fun _ => I) I

theorem leaves_getProperty (k : Key) : Leaves I (getProperty k) (fun v s => I s ∧ v = s k) J := by
  refine fun w hw => ⟨?_, ?_⟩
  · rintro _ ⟨⟩
    exact ⟨hw, rfl⟩
  · rintro _ ⟨⟩

theorem leaves_setProperty {k : Key} {v : JSString} {Q : Store → Prop}
    (hset : ∀ s, I s → Q (s.set k v)) (hfail : ∀ s, I s → J s) :
    Leaves I (setProperty k v) (fun _ => Q) J := by
  intro w hw
  cases he : w.env.write 0 with
  | none =>
    rw [run_setProperty w k v he]
    exact ⟨fun _ _ => hset _ hw, by rintro _ ⟨⟩⟩
  | some e =>
    rw [run_setProperty_error w k v e he]
    exact ⟨by rintro _ ⟨⟩, fun _ _ => hfail _ hw⟩

theorem leaves_withScriptLock {n : ℕ} {mutate onBusy : Action α} (hm : Leaves I mutate Q J)
    (hb : Leaves I onBusy Q J) : Leaves I (Locks.withScriptLock n mutate onBusy) Q J := by
  intro w hw
  rw [run_withScriptLock]
  split_ifs
  · exact hm ⟨w.store, w.env.afterLock⟩ hw
  · exact hb ⟨w.store, w.env.afterLock⟩ hw

theorem Footprint.maintains {F : Footprint} {p : Action α} (hp : p.Within F.allows)
    (hI : ∀ s t : Store, I s → (∀ k, ¬ F.writes k → t k = s k) → I t) : Maintains I p :=
  .keeps fun w hw => hI _ _ hw fun _ hk => Footprint.unchanged hp hk w

/-- What comes after a first part, or after the exception that ends one of the two, leaves a property
as the first part has left it. -/
theorem Footprint.unchanged_after {F : Footprint} {p : Action α} {f : α → Action β}
    {g : JSError → Action β} (hf : ∀ a, (f a).Within F.allows) (hg : ∀ e, (g e).Within F.allows)
    {k : Key} (hk : ¬ F.writes k) (w : World) :
    (((p.bind f).catchWith g).run host w).state.store k = (p.run host w).state.store k := by
  rw [Prog.run_catchWith, Prog.run_bind, Result.andThen]
  cases (p.run host w).outcome with
  | error e => exact Footprint.unchanged (hg e) hk _
  | ok a =>
    have hthen := Footprint.unchanged (hf a) hk (p.run host w).state
    rw [Result.orElse]
    cases ((f a).run host (p.run host w).state).outcome with
    | ok b => exact hthen
    | error e => exact (Footprint.unchanged (hg e) hk _).trans hthen

def Returns (r : Result GAS JSError α World) : Prop := ∃ a, r.outcome = .ok a

theorem returns_iff {p : Action α} {w v : World} {x : Except JSError α}
    (h : p.exec host w = (x, v)) : Returns (p.run host w) ↔ ∃ a, x = .ok a := by
  have hx : (p.run host w).outcome = x := congrArg Prod.fst h
  rw [Returns, hx]

theorem writes_run (p : Action α) {w : World} (hw : w.env.Writes) :
    (p.run host w).state.env.Writes := by
  have hall : p.Within fun _ => True := by
    induction p with
    | ret a => trivial
    | raise e => trivial
    | perform c k ih => exact ⟨trivial, fun r => ih r⟩
  refine hall.preserves (fun v => v.env.Writes) (fun c v _ hv => ?_) w hw
  rcases c with (_ | ⟨k, t⟩ | _ | _ | _ | _) | _ | _
  case op.setProperty =>
    rw [host, hv 0]
    exact fun i => hv (i + 1)
  all_goals exact hv

end Rules
end Spazito
