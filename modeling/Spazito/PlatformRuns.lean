import Spazito.Config

set_option autoImplicit false

/-!
# Runs and footprints of the platform calls

What each call does when a script runs alone, and which properties and requests a script may touch.
-/
namespace Spazito
open Ecma Script

def Env.Writes (env : Env) : Prop := ∀ i, env.write i = none

section Runs

variable (w : World)

@[simp] theorem run_getProperty (k : Key) :
    (getProperty k).run host w = ⟨.ok (w.store k), w, [.op (.getProperty k)]⟩ := rfl
@[simp] theorem run_sleep (ms : ℕ) :
    (sleep ms).run host w = ⟨.ok (), w, [.op (.sleep ms)]⟩ := rfl
@[simp] theorem run_now :
    now.run host w = ⟨.ok (w.env.clock 0), ⟨w.store, w.env.afterClock⟩, [.op .now]⟩ := rfl
@[simp] theorem run_console (level : Level) (text : JSString) :
    (console level text).run host w = ⟨.ok (), w, [.op (.console level text)]⟩ := rfl
@[simp] theorem run_waitLock (n : ℕ) :
    (waitLock n).run host w = ⟨.ok (w.env.lock 0), ⟨w.store, w.env.afterLock⟩, [.waitLock n]⟩ := rfl
@[simp] theorem run_releaseLock :
    releaseLock.run host w = ⟨.ok (), w, [.releaseLock]⟩ := rfl

theorem host_setProperty (k : Key) (v : JSString) (hw : w.env.write 0 = none) :
    host (.op (.setProperty k v)) w = (.ok (), ⟨w.store.set k v, w.env.afterWrite⟩) := by
  simp [host, hw]

theorem host_setProperty_error (k : Key) (v : JSString) (e : JSError)
    (hw : w.env.write 0 = some e) :
    host (.op (.setProperty k v)) w = (.error e, ⟨w.store, w.env.afterWrite⟩) := by
  simp [host, hw]

theorem run_setProperty_host (k : Key) (v : JSString) : (setProperty k v).run host w =
    let r := host (.op (.setProperty k v)) w
    let q := (Prog.orRaise r.1 : Action Unit).run host r.2
    ⟨q.outcome, q.state, .op (.setProperty k v) :: q.performed⟩ := rfl

theorem run_setProperty (k : Key) (v : JSString) (hw : w.env.write 0 = none) :
    (setProperty k v).run host w =
      ⟨.ok (), ⟨w.store.set k v, w.env.afterWrite⟩, [.op (.setProperty k v)]⟩ := by
  rw [run_setProperty_host]
  dsimp only
  rw [host_setProperty w k v hw]
  rfl

theorem run_setProperty_error (k : Key) (v : JSString) (e : JSError) (hw : w.env.write 0 = some e) :
    (setProperty k v).run host w =
      ⟨.error e, ⟨w.store, w.env.afterWrite⟩, [.op (.setProperty k v)]⟩ := by
  rw [run_setProperty_host]
  dsimp only
  rw [host_setProperty_error w k v e hw]
  rfl

theorem run_fetch (r : Request) :
    (fetch r).run host w =
      ⟨w.env.fetch 0 r, ⟨w.store, w.env.afterFetch⟩, [.op (.fetch r)]⟩ := by
  change (let q := (Prog.orRaise (w.env.fetch 0 r) : Action Response).run host _
    (⟨q.outcome, q.state, _ :: q.performed⟩ : Result GAS JSError Response World)) = _
  cases w.env.fetch 0 r <;> rfl

@[simp] theorem run_eval_ok {α : Type} [Platform] (a : α) :
    (eval (.ok a : Except Fault α)).run host w = ⟨.ok a, w, []⟩ := rfl
@[simp] theorem run_eval_error {α : Type} [Platform] (f : Fault) :
    (eval (.error f : Except Fault α)).run host w = ⟨.error (Platform.faultError f), w, []⟩ := rfl

def Store.secret (s : Store) (k : Key) : JSString := trim ((s k).getD [])

theorem Store.secret_ne_nil {s : Store} {k : Key} (h : Config.isMissing (s k) = false) :
    s.secret k ≠ [] := by
  cases hs : s k with
  | none => simp [hs, Config.isMissing] at h
  | some v => simpa [hs, Config.isMissing, Store.secret] using h

theorem run_require (k : Key) :
    (Config.require k).run host w =
      ⟨if Config.isMissing (w.store k) then .error (Config.missingError [k])
        else .ok (w.store.secret k), w, [.op (.getProperty k)]⟩ := by
  cases h : Config.isMissing (w.store k) <;>
    simp [Config.require, Prog.run_bind, h, Store.secret]

theorem run_optional (k : Key) :
    (Config.optional k).run host w =
      ⟨.ok (if Config.isMissing (w.store k) then none else some (w.store.secret k)), w,
        [.op (.getProperty k)]⟩ := by
  simp [Config.optional, Prog.run_bind, Store.secret]

theorem isDebugMode_value (value : Option JSString) :
    (if Config.isMissing value then none else some (trim (value.getD []))) = some (js "true") ↔
      trim (value.getD []) = js "true" := by
  have ht : js "true" ≠ [] := by decide
  cases value with
  | none => simp [Config.isMissing, trim, ht.symm]
  | some v =>
    by_cases hv : trim v = [] <;> simp [Config.isMissing, hv, ht.symm]

theorem run_isDebugMode :
    Config.isDebugMode.run host w =
      ⟨.ok (decide (w.store.secret .debugMode = js "true")), w, [.op (.getProperty .debugMode)]⟩ := by
  simp only [Config.isDebugMode, Prog.bind_eq, Prog.pure_eq, Prog.run_bind, run_optional,
    Result.andThen_ok, Prog.run_ret, List.append_nil]
  exact congrArg (fun on => (⟨.ok on, w, [.op (.getProperty .debugMode)]⟩ :
    Result GAS JSError Bool World)) (decide_eq_decide.mpr (isDebugMode_value _))

theorem run_missing (keys : List Key) :
    (Config.missing keys).run host w =
      ⟨.ok (keys.filter fun k => Config.isMissing (w.store k)), w,
        keys.map fun k => .op (.getProperty k)⟩ := by
  induction keys with
  | nil => rfl
  | cons k keys ih =>
    cases h : Config.isMissing (w.store k) <;> simp [Config.missing, Prog.run_bind, ih, h]

theorem run_validate (keys : List Key) :
    (Config.validate keys).run host w =
      ⟨if keys.filter (fun k => Config.isMissing (w.store k)) = [] then .ok ()
        else .error (Config.missingError (keys.filter fun k => Config.isMissing (w.store k))), w,
        keys.map fun k => .op (.getProperty k)⟩ := by
  by_cases h : keys.filter (fun k => Config.isMissing (w.store k)) = [] <;>
    simp [Config.validate, Prog.run_bind, run_missing, h]

theorem run_withScriptLock {α : Type} (n : ℕ) (mutate onBusy : Action α) :
    (Locks.withScriptLock n mutate onBusy).run host w =
      if w.env.lock 0 then
        let r := mutate.run host ⟨w.store, w.env.afterLock⟩
        ⟨r.outcome, r.state, .waitLock n :: (r.performed ++ [.releaseLock])⟩
      else
        let r := onBusy.run host ⟨w.store, w.env.afterLock⟩
        ⟨r.outcome, r.state, .waitLock n :: .op (.console .warn
          (js "Could not acquire the script lock within " ++ decimal n ++
            js "ms; taking the busy path.")) :: r.performed⟩ := by
  cases h : w.env.lock 0
  · simp [Locks.withScriptLock, Prog.run_bind, h]
  · simp only [Locks.withScriptLock, Prog.bind_eq, Prog.run_bind, run_waitLock, h,
      Result.andThen_ok, ↓reduceIte, List.singleton_append]
    rw [show releaseLock = Prog.perform .releaseLock fun _ => Prog.ret () from rfl,
      Prog.run_andFinally]
    rfl

end Runs

/-! The same without the trace. -/

section Execs

variable (w : World)

@[simp] theorem exec_getProperty (k : Key) :
    (getProperty k).exec host w = (.ok (w.store k), w) := rfl
@[simp] theorem exec_now :
    now.exec host w = (.ok (w.env.clock 0), ⟨w.store, w.env.afterClock⟩) := rfl
@[simp] theorem exec_console (level : Level) (text : JSString) :
    (console level text).exec host w = (.ok (), w) := rfl
@[simp] theorem exec_eval_ok {α : Type} [Platform] (a : α) :
    (eval (.ok a : Except Fault α)).exec host w = (.ok a, w) := rfl

theorem exec_eval {α : Type} [Platform] (x : Except Fault α) :
    (eval x).exec host w = (x.mapError Platform.faultError, w) := by
  cases x <;> rfl

theorem exec_fetch (r : Request) :
    (fetch r).exec host w = (w.env.fetch 0 r, ⟨w.store, w.env.afterFetch⟩) :=
  Prog.exec_of_run host (run_fetch w r)

theorem exec_consoleIf (c : Prop) [Decidable c] (level : Level) (text : JSString) :
    (consoleIf c level text).exec host w = (.ok (), w) := by
  unfold consoleIf
  split_ifs <;> rfl

theorem exec_setProperty (k : Key) (v : JSString) (hw : w.env.write 0 = none) :
    (setProperty k v).exec host w = (.ok (), ⟨w.store.set k v, w.env.afterWrite⟩) :=
  Prog.exec_of_run host (run_setProperty w k v hw)

theorem exec_require (k : Key) (hk : Config.isMissing (w.store k) = false) :
    (Config.require k).exec host w = (.ok (w.store.secret k), w) := by
  rw [Prog.exec_of_run host (run_require w k), hk]
  rfl

theorem exec_withScriptLock {α : Type} (n : ℕ) (mutate onBusy : Action α) :
    (Locks.withScriptLock n mutate onBusy).exec host w =
      if w.env.lock 0 then mutate.exec host ⟨w.store, w.env.afterLock⟩
      else onBusy.exec host ⟨w.store, w.env.afterLock⟩ := by
  rw [Prog.exec_of_run host (run_withScriptLock w n mutate onBusy)]
  split <;> rfl

end Execs

def Computes {α : Type} [Platform] (p : Action α) (x : Except Fault α) : Prop :=
  ∀ w, p.exec host w = (x.mapError Platform.faultError, w)

namespace Computes

variable [Platform] {α β : Type}

theorem ret (a : α) : Computes (Prog.ret a) (.ok a) := fun _ => rfl

theorem eval (x : Except Fault α) : Computes (eval x) x := exec_eval (x := x)

theorem bind {p : Action α} {x : Except Fault α} {f : α → Action β} {g : α → Except Fault β}
    (hp : Computes p x) (hf : ∀ a, Computes (f a) (g a)) : Computes (p.bind f) (x >>= g) := by
  intro w
  rw [Prog.exec_bind, hp w]
  cases x with
  | ok a => exact hf a w
  | error e => rfl

theorem afterConsole (level : Level) (text : JSString) {p : Action α} {x : Except Fault α}
    (hp : Computes p x) : Computes ((console level text).bind fun _ => p) x := fun w => hp w

end Computes

/-! ## Footprints -/

/-- The properties a script reads, those it writes, and the requests it makes. -/
structure Footprint where
  reads : Key → Prop
  writes : Key → Prop
  fetches : Request → Prop

def Footprint.allows (F : Footprint) : Cmd GAS → Prop
  | .op (.getProperty k) => F.reads k
  | .op (.setProperty k _) => F.writes k
  | .op (.fetch r) => F.fetches r
  | _ => True

namespace Footprint

abbrev readOnly : Footprint := ⟨fun _ => True, fun _ => False, fun _ => False⟩

abbrev any : Footprint := ⟨fun _ => True, fun _ => True, fun _ => True⟩

theorem allows_any (c : Cmd GAS) : any.allows c := by
  cases c with
  | op o => cases o <;> trivial
  | waitLock _ | releaseLock => trivial

variable {F : Footprint} {α : Type}

@[simp] theorem allows_getProperty (k : Key) : F.allows (.op (.getProperty k)) ↔ F.reads k := Iff.rfl
@[simp] theorem allows_setProperty (k : Key) (v : JSString) :
    F.allows (.op (.setProperty k v)) ↔ F.writes k := Iff.rfl
@[simp] theorem allows_fetch (r : Request) : F.allows (.op (.fetch r)) ↔ F.fetches r := Iff.rfl
@[simp] theorem allows_console (level : Level) (text : JSString) :
    F.allows (.op (.console level text)) := trivial
@[simp] theorem allows_now : F.allows (.op .now) := trivial
@[simp] theorem allows_sleep (ms : ℕ) : F.allows (.op (.sleep ms)) := trivial
@[simp] theorem allows_waitLock (n : ℕ) : F.allows (.waitLock n) := trivial
@[simp] theorem allows_releaseLock : F.allows .releaseLock := trivial

theorem allows_mono {G : Footprint} (hr : ∀ k, F.reads k → G.reads k)
    (hw : ∀ k, F.writes k → G.writes k) (hf : ∀ r, F.fetches r → G.fetches r) (c : Cmd GAS)
    (hc : F.allows c) : G.allows c := by
  cases c with
  | op o =>
    cases o with
    | getProperty k => exact hr k hc
    | setProperty k v => exact hw k hc
    | fetch r => exact hf r hc
    | sleep _ | now | console _ _ => trivial
  | waitLock _ | releaseLock => trivial

theorem getProperty {k : Key} (h : F.reads k) : (getProperty k).Within F.allows :=
  ⟨h, fun _ => trivial⟩

theorem setProperty {k : Key} {v : JSString} (h : F.writes k) :
    (setProperty k v).Within F.allows :=
  ⟨h, fun r => Prog.within_orRaise r⟩

theorem fetch {r : Request} (h : F.fetches r) : (fetch r).Within F.allows :=
  ⟨h, fun r => Prog.within_orRaise r⟩

theorem sleep (ms : ℕ) : (sleep ms).Within F.allows := ⟨trivial, fun _ => trivial⟩
theorem now : now.Within F.allows := ⟨trivial, fun _ => trivial⟩
theorem console (level : Level) (text : JSString) : (console level text).Within F.allows :=
  ⟨trivial, fun _ => trivial⟩

theorem consoleIf (c : Prop) [Decidable c] (level : Level) (text : JSString) :
    (consoleIf c level text).Within F.allows := by
  unfold Spazito.consoleIf
  split_ifs
  · exact console level text
  · trivial

theorem eval [Platform] (x : Except Fault α) : (eval x).Within F.allows := by
  cases x <;> trivial

theorem require {k : Key} (h : F.reads k) : (Config.require k).Within F.allows := by
  refine (getProperty h).bind fun v => ?_
  dsimp only
  split_ifs <;> trivial

theorem optional {k : Key} (h : F.reads k) : (Config.optional k).Within F.allows :=
  (getProperty h).bind fun _ => trivial

theorem isDebugMode (h : F.reads .debugMode) : Config.isDebugMode.Within F.allows :=
  (optional h).bind fun _ => trivial

theorem missing {keys : List Key} (h : ∀ k ∈ keys, F.reads k) :
    (Config.missing keys).Within F.allows := by
  induction keys with
  | nil => trivial
  | cons k keys ih =>
    obtain ⟨hk, hks⟩ := List.forall_mem_cons.mp h
    exact (getProperty hk).bind fun _ => (ih hks).bind fun _ => trivial

theorem validate {keys : List Key} (h : ∀ k ∈ keys, F.reads k) :
    (Config.validate keys).Within F.allows := by
  refine (missing h).bind fun absent => ?_
  split_ifs <;> trivial

theorem withScriptLock {n : ℕ} {mutate onBusy : Action α} (hm : mutate.Within F.allows)
    (hb : onBusy.Within F.allows) : (Locks.withScriptLock n mutate onBusy).Within F.allows := by
  refine ⟨trivial, fun obtained => ?_⟩
  cases obtained with
  | true => exact hm.andFinally ⟨trivial, fun _ => trivial⟩
  | false => exact (console _ _).bind fun _ => hb

theorem unchanged {p : Action α} (hp : p.Within F.allows) {k : Key} (hk : ¬ F.writes k) (w : World) :
    (p.run host w).state.store k = w.store k := by
  refine Prog.Within.preserves hp (fun v => v.store k = w.store k) ?_ w rfl
  intro c v hc hv
  cases c with
  | waitLock n => exact hv
  | releaseLock => exact hv
  | op o =>
    cases o with
    | setProperty k' x =>
      have hne : k ≠ k' := by rintro rfl; exact hk hc
      cases he : v.env.write 0 <;> simp [host, he, Store.set, Function.update_of_ne hne, hv]
    | _ => exact hv

/-- Two stores that agree on what a script reads make it do the same, and what it writes is the same
in both. -/
theorem same_run {p : Action α} (hp : p.Within F.allows) (s t : Store) (env : Env)
    (hst : ∀ k, F.reads k → s k = t k) :
    (p.run host ⟨s, env⟩).outcome = (p.run host ⟨t, env⟩).outcome ∧
      (p.run host ⟨s, env⟩).performed = (p.run host ⟨t, env⟩).performed ∧
      ∀ k, F.reads k → (p.run host ⟨s, env⟩).state.store k = (p.run host ⟨t, env⟩).state.store k := by
  have h := Prog.Within.related (h := host) (g := host) hp
    (fun v v' => v.env = v'.env ∧ ∀ k, F.reads k → v.store k = v'.store k) ?_
    ⟨s, env⟩ ⟨t, env⟩ ⟨rfl, hst⟩
  · exact ⟨h.1, h.2.1, h.2.2.2⟩
  · rintro c ⟨s, env⟩ ⟨t, env'⟩ hc ⟨henv, hread⟩
    obtain rfl : env = env' := henv
    cases c with
    | waitLock n => exact ⟨rfl, rfl, hread⟩
    | releaseLock => exact ⟨rfl, rfl, hread⟩
    | op o =>
      cases o with
      | getProperty k => exact ⟨hread k hc, rfl, hread⟩
      | setProperty k x =>
        cases hw : env.write 0 with
        | some e =>
          rw [host_setProperty_error _ k x e hw, host_setProperty_error _ k x e hw]
          exact ⟨rfl, rfl, hread⟩
        | none =>
          rw [host_setProperty _ k x hw, host_setProperty _ k x hw]
          refine ⟨rfl, rfl, fun k' hk' => ?_⟩
          by_cases hkk : k' = k
          · simp [Store.set, hkk]
          · simpa [Store.set, hkk] using hread k' hk'
      | _ => exact ⟨rfl, rfl, hread⟩

end Footprint
end Spazito
