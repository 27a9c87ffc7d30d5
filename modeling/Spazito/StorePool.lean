import Spazito.PlatformRuns
import Spazito.ScriptSections

set_option autoImplicit false

/-!
# Many executions over one store

How the platform answers executions that run at the same time: single reads and writes of a property
are atomic, and nothing but the script lock keeps two executions apart.
-/
namespace Spazito
open Ecma Script

variable {ι : Type}

/-- A read sees the store; a write replaces one property, or fails and changes nothing where failing
is allowed; the rest leaves the store alone. -/
def storeEffect (mayFail : Prop) : Effect GAS ι Store := fun _ o s r s' =>
  match o, r with
  | .getProperty k, r => r = s k ∧ s' = s
  | .setProperty k v, r => (r = .ok () ∧ s' = s.set k v) ∨ (mayFail ∧ (∃ e, r = .error e) ∧ s' = s)
  | .fetch _, _ | .sleep _, _ | .now, _ | .console _ _, _ => s' = s

theorem storeEffect_frame {mayFail : Prop} {i : ι} {o : Op} {s s' : Store} {r : o.Ret}
    (h : storeEffect mayFail i o s r s') {k : Key} (hk : ∀ v, o ≠ .setProperty k v) : s' k = s k := by
  cases o with
  | getProperty k' => rw [h.2]
  | setProperty k' v =>
    have hne : k ≠ k' := by rintro rfl; exact hk v rfl
    rcases h with ⟨-, rfl⟩ | ⟨-, -, rfl⟩
    · exact Store.set_ne s v hne
    · rfl
  | fetch _ => rw [show s' = s from h]
  | sleep _ => rw [show s' = s from h]
  | now => rw [show s' = s from h]
  | console _ _ => rw [show s' = s from h]

/-! ## The platform calls in a pool -/

section Calls

variable {V α : Type} {E : Effect GAS ι Store} {good : Store → Prop} {view : Store → V} {i : ι}
  {v v' : V}

theorem ends_getProperty {k : Key} {x : Except JSError (Option JSString)}
    (hE : ∀ s r s', E i (.getProperty k) s r s' → s' = s)
    (h : Ends E good view i v (getProperty k) v' x) :
    v' = v ∧ ∃ s r, good s ∧ view s = v ∧ E i (.getProperty k) s r s ∧ x = .ok r := by
  obtain ⟨s, r, s', hs, rfl, heff, htail⟩ := ends_perform.mp h
  obtain ⟨rfl, rfl⟩ := (ends_ret _).mp htail
  obtain rfl := hE _ _ _ heff
  exact ⟨rfl, _, r, hs, rfl, heff, rfl⟩

theorem ends_setProperty {k : Key} {text : JSString} {x : Except JSError Unit}
    (h : Ends E good view i v (setProperty k text) v' x) :
    ∃ s s', good s ∧ view s = v ∧ E i (.setProperty k text) s x s' ∧ v' = view s' := by
  obtain ⟨w, y, hop, hrest⟩ := ends_bind.mp h
  obtain ⟨s, r, s', hs, rfl, heff, htail⟩ := ends_perform.mp hop
  obtain ⟨rfl, rfl⟩ := (ends_ret _).mp htail
  obtain ⟨rfl, rfl⟩ := (ends_orRaise r).mp hrest
  exact ⟨s, s', hs, rfl, heff, rfl⟩

theorem ends_console {level : Level} {text : JSString} {x : Except JSError Unit}
    (hE : ∀ s r s', E i (.console level text) s r s' → s' = s)
    (h : Ends E good view i v (console level text) v' x) : v' = v ∧ x = .ok () := by
  obtain ⟨s, r, s', hs, rfl, heff, htail⟩ := ends_perform.mp h
  obtain ⟨rfl, rfl⟩ := (ends_ret _).mp htail
  obtain rfl := hE _ _ _ heff
  exact ⟨rfl, rfl⟩

theorem withScriptLock_eq (n : ℕ) (mutate onBusy : Action α) :
    Locks.withScriptLock n mutate onBusy = Prog.locked n mutate
      ((console .warn (js "Could not acquire the script lock within " ++ decimal n ++
        js "ms; taking the busy path.")).bind fun _ => onBusy) := rfl

/-! Which calls are operations only. -/

theorem lockless_getProperty (k : Key) : (getProperty k).Lockless := ⟨⟨_, rfl⟩, fun _ => trivial⟩
theorem lockless_setProperty (k : Key) (text : JSString) : (setProperty k text).Lockless :=
  ⟨⟨_, rfl⟩, fun r => Prog.within_orRaise r⟩
theorem lockless_console (level : Level) (text : JSString) : (console level text).Lockless :=
  ⟨⟨_, rfl⟩, fun _ => trivial⟩

theorem lockless_require (k : Key) : (Config.require k).Lockless := by
  refine (lockless_getProperty k).bind fun value => ?_
  dsimp only
  split_ifs <;> trivial

theorem lockless_isDebugMode : Config.isDebugMode.Lockless := by
  have hread : (Config.optional .debugMode).Lockless :=
    (lockless_getProperty _).bind fun _ => trivial
  exact hread.bind fun _ => trivial

theorem disciplined_lockless {W : Op → Prop} {F : Footprint} {p : Action α} (hp : p.Lockless)
    (hF : p.Within F.allows) (hW : ∀ o : Op, F.allows (.op o) → ¬ W o) : p.Disciplined W false := by
  refine Prog.Disciplined.unlocked ((Prog.Within.and hp hF).mono ?_)
  rintro c ⟨⟨o, rfl⟩, ho⟩
  exact ⟨o, rfl, hW o ho⟩

theorem disciplined_withScriptLock {W : Op → Prop} (hW : ∀ level text, ¬ W (.console level text))
    {n : ℕ} {mutate onBusy : Action α} (hm : mutate.Lockless) (hb : onBusy.Disciplined W false) :
    (Locks.withScriptLock n mutate onBusy).Disciplined W false := by
  rw [withScriptLock_eq]
  exact ⟨rfl, Prog.Disciplined.section hm, fun h => absurd h (hW _ _), fun _ => hb⟩

end Calls
end Spazito
