import Spazito.ScriptProgram

set_option autoImplicit false

/-!
# How often a program calls a procedure

The procedure is a parameter of the program. What holds whatever the procedure is tells how often,
where and with what argument it is called.
-/
namespace Script.Prog

variable {S : Signature} {ε α β γ δ σ : Type} (h : Handler S σ)

def NeverThrows (g : α → Prog S ε β) : Prop := ∀ a s, ∃ b, ((g a).run h s).outcome = .ok b

/-- One call, with argument `a` in state `t`, and a normal end with `c`, whatever is called. -/
def CallsOnce (P : (α → Prog S ε β) → Prog S ε γ) (s : σ) (a : α) (t : σ) (c : γ) : Prop :=
  ∃ before : List (Cmd S), ∀ g, NeverThrows h g →
    (P g).run h s = ⟨.ok c, ((g a).run h t).state, before ++ ((g a).run h t).performed⟩

/-- No call: the run does not depend on the procedure. -/
def CallsNever (P : (α → Prog S ε β) → Prog S ε γ) (s : σ) (r : Result S ε γ σ) : Prop :=
  ∀ g, (P g).run h s = r

variable {h} {P : (α → Prog S ε β) → Prog S ε γ} {s t u : σ} {a : α} {c : γ} {r : Result S ε γ σ}

theorem run_of_exec {p : Prog S ε α} {x : Except ε α} (hp : p.exec h s = (x, t)) :
    p.run h s = ⟨x, t, (p.run h s).performed⟩ := by
  injection hp with hx ht
  rw [← hx, ← ht]

theorem run_bind_known {p : Prog S ε α} {f : α → Prog S ε β} (ha : (p.run h s).outcome = .ok a) :
    (p.bind f).run h s = (p.bind fun _ => f a).run h s := by
  rw [run_bind, run_bind, Result.andThen, Result.andThen, ha]

theorem CallsOnce.call (a : α) (s : σ) (c : γ) :
    CallsOnce h (fun g : α → Prog S ε β => (g a).bind fun _ => ret c) s a s c := by
  refine ⟨[], fun g hg => ?_⟩
  obtain ⟨b, hb⟩ := hg a s
  rw [run_bind, Result.andThen, hb]
  simp

theorem CallsOnce.after {p : Prog S ε δ} {Q : δ → (α → Prog S ε β) → Prog S ε γ} {x : δ}
    (hp : p.exec h s = (.ok x, u)) (hQ : CallsOnce h (Q x) u a t c) :
    CallsOnce h (fun g => p.bind fun x => Q x g) s a t c := by
  obtain ⟨before, hrun⟩ := hQ
  refine ⟨(p.run h s).performed ++ before, fun g hg => ?_⟩
  rw [run_bind, run_of_exec hp, Result.andThen_ok, hrun g hg, List.append_assoc]

theorem CallsOnce.map (hP : CallsOnce h P s a t c) (f : γ → δ) :
    CallsOnce h (fun g => (P g).bind fun c => ret (f c)) s a t (f c) := by
  obtain ⟨before, hrun⟩ := hP
  refine ⟨before, fun g hg => ?_⟩
  rw [run_bind, hrun g hg]
  simp

theorem CallsOnce.catchWith (hP : CallsOnce h P s a t c) (k : ε → Prog S ε γ) :
    CallsOnce h (fun g => (P g).catchWith k) s a t c := by
  obtain ⟨before, hrun⟩ := hP
  refine ⟨before, fun g hg => ?_⟩
  rw [run_catchWith, hrun g hg]
  rfl

theorem CallsNever.const (p : Prog S ε γ) (s : σ) :
    CallsNever h (fun _ : α → Prog S ε β => p) s (p.run h s) := fun _ => rfl

theorem CallsNever.after {p : Prog S ε δ} {Q : δ → (α → Prog S ε β) → Prog S ε γ} {x : δ}
    (hp : p.exec h s = (.ok x, u)) (hQ : CallsNever h (Q x) u r) :
    CallsNever h (fun g => p.bind fun x => Q x g) s
      ⟨r.outcome, r.state, (p.run h s).performed ++ r.performed⟩ := by
  intro g
  rw [run_bind, run_of_exec hp, Result.andThen_ok, hQ g]

theorem CallsNever.catchWith (hP : CallsNever h P s r) (k : ε → Prog S ε γ) :
    CallsNever h (fun g => (P g).catchWith k) s (r.orElse fun e t => (k e).run h t) := by
  intro g
  rw [run_catchWith, hP g]

end Script.Prog
