import Mathlib

set_option autoImplicit false

/-!
# Programs over a shared store with one lock

A program is the tree of what it asks of its host: each node is one command, each branch an answer.
The same tree is run alone by a handler here, and among others in a pool.
-/
namespace Script

structure Signature where
  Op : Type
  Ret : Op → Type

inductive Cmd (S : Signature)
  | op (o : S.Op)
  | waitLock (timeoutMs : ℕ)
  | releaseLock

/-- Waiting for the lock answers whether it was obtained. -/
def Cmd.Ret {S : Signature} : Cmd S → Type
  | .op o => S.Ret o
  | .waitLock _ => Bool
  | .releaseLock => Unit

inductive Prog (S : Signature) (ε α : Type)
  | ret (a : α)
  | raise (e : ε)
  | perform (c : Cmd S) (k : c.Ret → Prog S ε α)

namespace Prog

variable {S : Signature} {ε α β σ : Type}

def bind : Prog S ε α → (α → Prog S ε β) → Prog S ε β
  | ret a, f => f a
  | raise e, _ => raise e
  | perform c k, f => perform c fun r => (k r).bind f

instance : Monad (Prog S ε) where
  pure := ret
  bind := bind

def catchWith : Prog S ε α → (ε → Prog S ε α) → Prog S ε α
  | ret a, _ => ret a
  | raise e, h => h e
  | perform c k, h => perform c fun r => (k r).catchWith h

instance : MonadExceptOf ε (Prog S ε) where
  throw := raise
  tryCatch := catchWith

/-- `try p finally f`: `f` runs on both exits, then the outcome of `p` stands. -/
def andFinally : Prog S ε α → Prog S ε Unit → Prog S ε α
  | ret a, f => f.bind fun _ => ret a
  | raise e, f => f.bind fun _ => raise e
  | perform c k, f => perform c fun r => (k r).andFinally f

def op (o : S.Op) : Prog S ε (S.Ret o) := perform (.op o) ret

def orRaise : Except ε α → Prog S ε α
  | .ok a => ret a
  | .error e => raise e

@[simp] theorem pure_eq (a : α) : (pure a : Prog S ε α) = ret a := rfl
@[simp] theorem throw_eq (e : ε) : (throw e : Prog S ε α) = raise e := rfl
@[simp] theorem bind_eq (p : Prog S ε α) (f : α → Prog S ε β) : p >>= f = p.bind f := rfl
@[simp] theorem tryCatch_eq (p : Prog S ε α) (h : ε → Prog S ε α) :
    tryCatch p h = p.catchWith h := rfl
@[simp] theorem ret_bind (a : α) (f : α → Prog S ε β) : (ret a).bind f = f a := rfl
@[simp] theorem raise_bind (e : ε) (f : α → Prog S ε β) : (raise e).bind f = raise e := rfl
@[simp] theorem perform_bind (c : Cmd S) (k : c.Ret → Prog S ε α) (f : α → Prog S ε β) :
    (perform c k).bind f = perform c fun r => (k r).bind f := rfl

theorem bind_ret (p : Prog S ε α) : p.bind ret = p := by
  induction p with
  | ret a => rfl
  | raise e => rfl
  | perform c k ih => simp only [perform_bind, ih]

theorem bind_assoc {γ : Type} (p : Prog S ε α) (f : α → Prog S ε β) (g : β → Prog S ε γ) :
    (p.bind f).bind g = p.bind fun a => (f a).bind g := by
  induction p with
  | ret a => rfl
  | raise e => rfl
  | perform c k ih => simp only [perform_bind, ih]

instance : LawfulMonad (Prog S ε) :=
  LawfulMonad.mk' (Prog S ε) bind_ret (fun _ _ => rfl) bind_assoc

end Prog

/-! ## One program alone -/

/-- How a host answers a command and what becomes of its state. -/
abbrev Handler (S : Signature) (σ : Type) := (c : Cmd S) → σ → c.Ret × σ

structure Result (S : Signature) (ε α σ : Type) where
  outcome : Except ε α
  state : σ
  performed : List (Cmd S)

namespace Result

variable {S : Signature} {ε α β σ : Type}

def andThen (r : Result S ε α σ) (f : α → σ → Result S ε β σ) : Result S ε β σ :=
  match r.outcome with
  | .ok a => ⟨(f a r.state).outcome, (f a r.state).state, r.performed ++ (f a r.state).performed⟩
  | .error e => ⟨.error e, r.state, r.performed⟩

def orElse (r : Result S ε α σ) (g : ε → σ → Result S ε α σ) : Result S ε α σ :=
  match r.outcome with
  | .ok _ => r
  | .error e => ⟨(g e r.state).outcome, (g e r.state).state, r.performed ++ (g e r.state).performed⟩

@[simp] theorem andThen_ok (a : α) (s : σ) (t : List (Cmd S)) (f : α → σ → Result S ε β σ) :
    (⟨.ok a, s, t⟩ : Result S ε α σ).andThen f =
      ⟨(f a s).outcome, (f a s).state, t ++ (f a s).performed⟩ := rfl
@[simp] theorem andThen_error (e : ε) (s : σ) (t : List (Cmd S)) (f : α → σ → Result S ε β σ) :
    (⟨.error e, s, t⟩ : Result S ε α σ).andThen f = ⟨.error e, s, t⟩ := rfl
@[simp] theorem orElse_ok (a : α) (s : σ) (t : List (Cmd S)) (g : ε → σ → Result S ε α σ) :
    (⟨.ok a, s, t⟩ : Result S ε α σ).orElse g = ⟨.ok a, s, t⟩ := rfl
@[simp] theorem orElse_error (e : ε) (s : σ) (t : List (Cmd S)) (g : ε → σ → Result S ε α σ) :
    (⟨.error e, s, t⟩ : Result S ε α σ).orElse g =
      ⟨(g e s).outcome, (g e s).state, t ++ (g e s).performed⟩ := rfl

end Result

namespace Prog

variable {S : Signature} {ε α β σ : Type}

def run (h : Handler S σ) : Prog S ε α → σ → Result S ε α σ
  | ret a, s => ⟨.ok a, s, []⟩
  | raise e, s => ⟨.error e, s, []⟩
  | perform c k, s =>
    let r := (k (h c s).1).run h (h c s).2
    ⟨r.outcome, r.state, c :: r.performed⟩

variable (h : Handler S σ)

@[simp] theorem run_ret (a : α) (s : σ) : (ret a : Prog S ε α).run h s = ⟨.ok a, s, []⟩ := rfl
@[simp] theorem run_raise (e : ε) (s : σ) : (raise e : Prog S ε α).run h s = ⟨.error e, s, []⟩ := rfl

theorem run_perform (c : Cmd S) (k : c.Ret → Prog S ε α) (s : σ) :
    (perform c k).run h s =
      ⟨((k (h c s).1).run h (h c s).2).outcome, ((k (h c s).1).run h (h c s).2).state,
        c :: ((k (h c s).1).run h (h c s).2).performed⟩ := rfl

theorem run_bind (p : Prog S ε α) (f : α → Prog S ε β) (s : σ) :
    (p.bind f).run h s = (p.run h s).andThen fun a t => (f a).run h t := by
  induction p generalizing s with
  | ret a => rfl
  | raise e => rfl
  | perform c k ih =>
    rw [perform_bind, run_perform, ih, run_perform]
    cases hk : ((k (h c s).1).run h (h c s).2).outcome <;> simp [Result.andThen, hk]

theorem outcome_bind {p : Prog S ε α} {f : α → Prog S ε β} {s : σ} {b : β} :
    ((p.bind f).run h s).outcome = .ok b ↔ ∃ a, (p.run h s).outcome = .ok a ∧
      ((f a).run h (p.run h s).state).outcome = .ok b := by
  rw [run_bind, Result.andThen]
  cases (p.run h s).outcome <;> simp

theorem run_catchWith (p : Prog S ε α) (g : ε → Prog S ε α) (s : σ) :
    (p.catchWith g).run h s = (p.run h s).orElse fun e t => (g e).run h t := by
  induction p generalizing s with
  | ret b => rfl
  | raise e' => rfl
  | perform c k ih =>
    rw [catchWith, run_perform, ih, run_perform]
    cases hk : ((k (h c s).1).run h (h c s).2).outcome <;> simp [Result.orElse, hk]

/-- A final command without an answer, such as the release of the lock, leaves the outcome alone. -/
theorem run_andFinally (p : Prog S ε α) (c : Cmd S) (s : σ) :
    (p.andFinally (perform c fun _ => ret ())).run h s =
      ⟨(p.run h s).outcome, (h c (p.run h s).state).2, (p.run h s).performed ++ [c]⟩ := by
  induction p generalizing s with
  | ret b => rfl
  | raise e => rfl
  | perform c' k ih =>
    rw [andFinally, run_perform, ih]
    rfl

/-! The outcome and the final state, without the trace. -/

def exec (p : Prog S ε α) (s : σ) : Except ε α × σ := ((p.run h s).outcome, (p.run h s).state)

def next (x : Except ε α × σ) (f : α → σ → Except ε β × σ) : Except ε β × σ :=
  match x.1 with
  | .ok a => f a x.2
  | .error e => (.error e, x.2)

@[simp] theorem next_ok (a : α) (s : σ) (f : α → σ → Except ε β × σ) :
    next (.ok a, s) f = f a s := rfl
@[simp] theorem next_error (e : ε) (s : σ) (f : α → σ → Except ε β × σ) :
    next (.error e, s) f = (.error e, s) := rfl

@[simp] theorem exec_ret (a : α) (s : σ) : (ret a : Prog S ε α).exec h s = (.ok a, s) := rfl
@[simp] theorem exec_raise (e : ε) (s : σ) : (raise e : Prog S ε α).exec h s = (.error e, s) := rfl

theorem exec_bind (p : Prog S ε α) (f : α → Prog S ε β) (s : σ) :
    (p.bind f).exec h s = next (p.exec h s) fun a t => (f a).exec h t := by
  rw [exec, run_bind, Result.andThen, exec, next]
  cases (p.run h s).outcome <;> rfl

theorem exec_bind_ok {p : Prog S ε α} {f : α → Prog S ε β} {s t : σ} {a : α}
    (hp : p.exec h s = (.ok a, t)) : (p.bind f).exec h s = (f a).exec h t := by
  rw [exec_bind, hp, next_ok]

theorem exec_bind_error {p : Prog S ε α} {f : α → Prog S ε β} {s t : σ} {e : ε}
    (hp : p.exec h s = (.error e, t)) : (p.bind f).exec h s = (.error e, t) := by
  rw [exec_bind, hp, next_error]

def rescue (x : Except ε α × σ) (g : ε → σ → Except ε α × σ) : Except ε α × σ :=
  match x.1 with
  | .ok _ => x
  | .error e => g e x.2

@[simp] theorem rescue_ok (a : α) (s : σ) (g : ε → σ → Except ε α × σ) :
    rescue (.ok a, s) g = (.ok a, s) := rfl
@[simp] theorem rescue_error (e : ε) (s : σ) (g : ε → σ → Except ε α × σ) :
    rescue (.error e, s) g = g e s := rfl

theorem exec_catchWith (p : Prog S ε α) (g : ε → Prog S ε α) (s : σ) :
    (p.catchWith g).exec h s = rescue (p.exec h s) fun e t => (g e).exec h t := by
  rw [exec, run_catchWith, Result.orElse, exec, rescue]
  cases hp : (p.run h s).outcome <;> simp [exec, hp]

theorem exec_of_run {p : Prog S ε α} {s : σ} {r : Result S ε α σ} (hr : p.run h s = r) :
    p.exec h s = (r.outcome, r.state) := by
  rw [exec, hr]

/-! ## What a program may ask for -/

/-- Every command the program can perform satisfies `A`, whatever the answers are. -/
def Within (A : Cmd S → Prop) : Prog S ε α → Prop
  | ret _ | raise _ => True
  | perform c k => A c ∧ ∀ r, (k r).Within A

section Within

variable {h} {A B : Cmd S → Prop}

@[simp] theorem within_ret (a : α) : (ret a : Prog S ε α).Within A := trivial
@[simp] theorem within_raise (e : ε) : (raise e : Prog S ε α).Within A := trivial
@[simp] theorem within_perform (c : Cmd S) (k : c.Ret → Prog S ε α) :
    (perform c k).Within A ↔ A c ∧ ∀ r, (k r).Within A := Iff.rfl

theorem within_of_forall (hA : ∀ c, A c) (p : Prog S ε α) : p.Within A := by
  induction p with
  | ret a => trivial
  | raise e => trivial
  | perform c k ih => exact ⟨hA c, ih⟩

theorem Within.mono {p : Prog S ε α} (hp : p.Within A) (hAB : ∀ c, A c → B c) : p.Within B := by
  induction p with
  | ret a => trivial
  | raise e => trivial
  | perform c k ih => exact ⟨hAB c hp.1, fun r => ih r (hp.2 r)⟩

theorem Within.and {p : Prog S ε α} (hA : p.Within A) (hB : p.Within B) :
    p.Within fun c => A c ∧ B c := by
  induction p with
  | ret a => trivial
  | raise e => trivial
  | perform c k ih => exact ⟨⟨hA.1, hB.1⟩, fun r => ih r (hA.2 r) (hB.2 r)⟩

theorem Within.bind {p : Prog S ε α} {f : α → Prog S ε β} (hp : p.Within A)
    (hf : ∀ a, (f a).Within A) : (p.bind f).Within A := by
  induction p with
  | ret a => exact hf a
  | raise e => trivial
  | perform c k ih => exact ⟨hp.1, fun r => ih r (hp.2 r)⟩

theorem Within.catchWith {p : Prog S ε α} {g : ε → Prog S ε α} (hp : p.Within A)
    (hg : ∀ e, (g e).Within A) : (p.catchWith g).Within A := by
  induction p with
  | ret a => trivial
  | raise e => exact hg e
  | perform c k ih => exact ⟨hp.1, fun r => ih r (hp.2 r)⟩

theorem Within.andFinally {p : Prog S ε α} {f : Prog S ε Unit} (hp : p.Within A)
    (hf : f.Within A) : (p.andFinally f).Within A := by
  induction p with
  | ret a => exact hf.bind fun _ => trivial
  | raise e => exact hf.bind fun _ => trivial
  | perform c k ih => exact ⟨hp.1, fun r => ih r (hp.2 r)⟩

theorem within_orRaise (x : Except ε α) : (orRaise x : Prog S ε α).Within A := by
  cases x <;> trivial

theorem Within.performed {p : Prog S ε α} (hp : p.Within A) (s : σ) :
    ∀ c ∈ (p.run h s).performed, A c := by
  induction p generalizing s with
  | ret a => simp
  | raise e => simp
  | perform c k ih =>
    rw [run_perform]
    intro c' hc'
    rcases List.mem_cons.mp hc' with rfl | hc'
    · exact hp.1
    · exact ih _ (hp.2 _) _ c' hc'

/-- The invariant rule: what every permitted command keeps, a whole run keeps. -/
theorem Within.preserves {p : Prog S ε α} (hp : p.Within A) (I : σ → Prop)
    (hstep : ∀ c s, A c → I s → I (h c s).2) (s : σ) (hs : I s) : I (p.run h s).state := by
  induction p generalizing s with
  | ret a => exact hs
  | raise e => exact hs
  | perform c k ih => exact ih _ (hp.2 _) _ (hstep c s hp.1 hs)

/-- The two-run rule: from related states, with every permitted command answered alike and keeping
the relation, a program does and returns the same and ends in related states. -/
theorem Within.related {τ : Type} {g : Handler S τ} {p : Prog S ε α} (hp : p.Within A)
    (R : σ → τ → Prop)
    (hstep : ∀ c s t, A c → R s t → (h c s).1 = (g c t).1 ∧ R (h c s).2 (g c t).2)
    (s : σ) (t : τ) (hst : R s t) :
    (p.run h s).outcome = (p.run g t).outcome ∧
      (p.run h s).performed = (p.run g t).performed ∧ R (p.run h s).state (p.run g t).state := by
  induction p generalizing s t with
  | ret a => exact ⟨rfl, rfl, hst⟩
  | raise e => exact ⟨rfl, rfl, hst⟩
  | perform c k ih =>
    obtain ⟨hans, hnext⟩ := hstep c s t hp.1 hst
    obtain ⟨ho, hc, hr⟩ := ih (h c s).1 (hp.2 _) _ _ hnext
    rw [run_perform, run_perform, ← hans]
    exact ⟨ho, by rw [hc], hr⟩

end Within

end Prog
end Script
