import Spazito.ScriptPool

set_option autoImplicit false

/-!
# Moments of a run

What an operation has seen is the store at a moment of the run, when its thread was at it. Where every
program begins with a reading, the run is one of the programs that have already read.
-/
namespace Script

/-! ## What is left of a program -/

namespace Prog

variable {S : Signature} {ε α β : Type} {p : Prog S ε α} {a : α}

/-- The program and all that can be left of it are as `X` says. -/
def Always (X : Prog S ε α → Prop) : Prog S ε α → Prop
  | ret a => X (ret a)
  | raise e => X (raise e)
  | perform c k => X (perform c k) ∧ ∀ r, (k r).Always X

theorem Always.now {X : Prog S ε α → Prop} (h : p.Always X) : X p := by
  cases p with
  | ret a => exact h
  | raise e => exact h
  | perform c k => exact h.1

theorem Always.bind {A : Cmd S → Prop} {X : Prog S ε β → Prop} {f : α → Prog S ε β} (hp : p.Within A)
    (hA : ∀ c k, A c → X (perform c k)) (hraise : ∀ e, X (raise e)) (hf : ∀ a, (f a).Always X) :
    (p.bind f).Always X := by
  induction p with
  | ret a => exact hf a
  | raise e => exact hraise e
  | perform c k ih => exact ⟨hA c _ hp.1, fun r => ih r (hp.2 r)⟩

/-- It never returns `a`. -/
def Spares (a : α) : Prog S ε α → Prop
  | ret b => b ≠ a
  | raise _ => True
  | perform _ k => ∀ r, (k r).Spares a

theorem Spares.bind {p : Prog S ε β} {f : β → Prog S ε α} (hf : ∀ b, (f b).Spares a) :
    (p.bind f).Spares a := by
  induction p with
  | ret b => exact hf b
  | raise e => trivial
  | perform c k ih => exact fun r => ih r

theorem Spares.always {X : Prog S ε α → Prop} (hX : ∀ q, q.Spares a → X q) (hp : p.Spares a) :
    p.Always X := by
  induction p with
  | ret b => exact hX _ hp
  | raise e => exact hX _ hp
  | perform c k ih => exact ⟨hX _ hp, fun r => ih r (hp r)⟩

end Prog

namespace Pool

variable {S : Signature} {ε α ι D : Type} [DecidableEq ι] {E E' : Effect S ι D}
  {p q r : Pool S ε α ι D} {i : ι}

theorem Step.mono (hE : ∀ i o d a d', E i o d a d' → E' i o d a d') (h : Step E p i q) :
    Step E' p i q := by
  cases h with
  | op at_op effect => exact .op at_op (hE _ _ _ _ _ effect)
  | acquire at_wait free => exact .acquire at_wait free
  | timeout at_wait => exact .timeout at_wait
  | release at_release => exact .release at_release

theorem Runs.mono (hE : ∀ i o d a d', E i o d a d' → E' i o d a d') (h : Runs E p q) :
    Runs E' p q := by
  induction h with
  | refl => exact .refl _
  | next _ step ih => exact .next ih (step.mono hE)

theorem Runs.one (h : Step E p i q) : Runs E p q := .next (.refl p) h

theorem Step.thread_ne (h : Step E p i q) {j : ι} (hj : j ≠ i) : q.thread j = p.thread j := by
  cases h <;> exact Function.update_of_ne hj _ _

/-- The pool `q` lies on the way from `p` to `r`. -/
def On (E : Effect S ι D) (p r q : Pool S ε α ι D) : Prop := Runs E p q ∧ Runs E q r

theorem On.next (h : On E p q r) {q' : Pool S ε α ι D} (step : Step E q i q') : On E p q' r :=
  ⟨h.1, .next h.2 step⟩

theorem Runs.always {X : Prog S ε α → Prop} (h : Runs E p q) (hp : (p.thread i).Always X) :
    (q.thread i).Always X :=
  h.thread hp (fun _ _ _ r _ hk _ => hk.2 r) (fun _ _ b hk => hk.2 b) fun _ hk => hk.2 ()

theorem Runs.spares {a : α} (h : Runs E p q) (hp : (p.thread i).Spares a) : (q.thread i).Spares a :=
  h.thread hp (fun _ _ _ r _ hk _ => hk r) (fun _ _ b hk => hk b) fun _ hk => hk ()

theorem Step.order_op {o : S.Op} {k : S.Ret o → Prog S ε α} (h : Step E p i q)
    (hop : p.thread i = .perform (.op o) k) : q.order = p.order := by
  cases h with
  | op _ _ | timeout _ | release _ => rfl
  | acquire at_wait _ => cases hop.symm.trans at_wait

theorem Runs.order_ended {x : Except ε α} (h : Runs E p q) (hp : p.thread i = Prog.orRaise x) :
    ∃ more, q.order = p.order ++ more ∧ i ∉ more := by
  have hend {c : Cmd S} {k : c.Ret → Prog S ε α} : Prog.orRaise x ≠ .perform c k := by
    cases x <;> exact nofun
  induction h with
  | refl => exact ⟨[], by simp, List.not_mem_nil⟩
  | @next q r j front step ih =>
    obtain ⟨more, horder, hmore⟩ := ih
    cases step with
    | op _ _ | timeout _ | release _ => exact ⟨more, horder, hmore⟩
    | acquire at_wait _ =>
      have hi : q.thread i = Prog.orRaise x :=
        front.thread (I := fun t => t = Prog.orRaise x) hp
          (fun _ _ _ _ _ hk _ => (hend hk.symm).elim) (fun _ _ _ hk => (hend hk.symm).elim)
          fun _ hk => (hend hk.symm).elim
      have hne : i ≠ j := by
        rintro rfl
        exact hend (hi.symm.trans at_wait)
      exact ⟨more ++ [j], by simp [horder], by simp [hmore, hne]⟩

/-- On the way from `p` to `r` the thread is at the operation and gets this answer. -/
def Seen (E : Effect S ι D) (p r : Pool S ε α ι D) (i : ι) (o : S.Op) (d : D) (a : S.Ret o) : Prop :=
  ∃ q q' k, Runs E p q ∧ q.thread i = .perform (.op o) k ∧ q.data = d ∧ Step E q i q' ∧
    q'.thread i = k a ∧ Runs E q' r

theorem Seen.next {o : S.Op} {d : D} {a : S.Ret o} (h : Seen E p q i o d a) {j : ι}
    (step : Step E q j r) : Seen E p r i o d a := by
  obtain ⟨m, m', k, hfront, hop, hdata, hstep, hthread, hback⟩ := h
  exact ⟨m, m', k, hfront, hop, hdata, hstep, hthread, .next hback step⟩

/-- Each operation sees the store of the moment of the run when its thread is at it. -/
theorem Runs.observed (h : Runs E p r) : Runs (fun i o d a d' => E i o d a d' ∧ Seen E p r i o d a) p r := by
  induction h with
  | refl => exact .refl _
  | @next q r i front step ih =>
    have hfront : Runs (fun i o d a d' => E i o d a d' ∧ Seen E p r i o d a) p q :=
      ih.mono fun _ _ _ _ _ ⟨heff, hseen⟩ => ⟨heff, hseen.next step⟩
    refine .next (i := i) hfront ?_
    cases step with
    | op at_op effect =>
      refine .op at_op ⟨effect, q, _, _, front, at_op, rfl, .op at_op effect, ?_, .refl _⟩
      exact Function.update_self ..
    | acquire at_wait free => exact .acquire at_wait free
    | timeout at_wait => exact .timeout at_wait
    | release at_release => exact .release at_release

/-! ## Reading first -/

section First

variable {P : ι → Prog S ε α} {o : S.Op} {k : ι → S.Ret o → Prog S ε α} {d : D}

/-- The pool with the threads that have not moved put behind their first operation. -/
def skipped (k : ι → S.Ret o → Prog S ε α) (b : ι → S.Ret o) (f : ι → Option (S.Ret o))
    (p : Pool S ε α ι D) : Pool S ε α ι D :=
  { p with thread := fun i => if (f i).isSome then p.thread i else k i (b i) }

theorem skipped_advance {b : ι → S.Ret o} {f : ι → Option (S.Ret o)} (hi : (f i).isSome = true)
    (t : Prog S ε α) : skipped k b f (p.advance i t) = (skipped k b f p).advance i t := by
  have hthread : (fun j => if (f j).isSome then Function.update p.thread i t j else k j (b j)) =
      Function.update (fun j => if (f j).isSome then p.thread j else k j (b j)) i t := by
    funext j
    by_cases hj : j = i
    · subst hj
      simp [hi]
    · simp [hj]
  simp [skipped, advance, hthread]

theorem Step.skipped {b : ι → S.Ret o} {f : ι → Option (S.Ret o)} (hi : (f i).isSome = true)
    (h : Step E p i q) : Step E (skipped k b f p) i (skipped k b f q) := by
  have hthread : (Pool.skipped k b f p).thread i = p.thread i := if_pos hi
  cases h with
  | @op o k' a d' at_op effect =>
    change Step E _ i { Pool.skipped k b f (p.advance i (k' a)) with data := d' }
    rw [skipped_advance hi]
    exact .op (hthread.trans at_op) effect
  | @acquire n k' at_wait free =>
    change Step E _ i { Pool.skipped k b f (p.advance i (k' true)) with
      holder := some i, order := p.order ++ [i] }
    rw [skipped_advance hi]
    exact .acquire (hthread.trans at_wait) free
  | @timeout n k' at_wait =>
    rw [skipped_advance hi]
    exact .timeout (hthread.trans at_wait)
  | @release k' at_release =>
    change Step E _ i { Pool.skipped k b f (p.advance i (k' ())) with
      holder := if p.holder = some i then none else p.holder }
    rw [skipped_advance hi]
    exact .release (hthread.trans at_release)

structure Read (E : Effect S ι D) (P : ι → Prog S ε α) (o : S.Op) (k : ι → S.Ret o → Prog S ε α)
    (d : D) (p : Pool S ε α ι D) (f : ι → Option (S.Ret o)) : Prop where
  fresh : ∀ i, f i = none → p.thread i = P i
  moment : ∀ i a, f i = some a →
    ∃ q, On E (start P d) p q ∧ q.thread i = P i ∧ E i o q.data a q.data
  rest : ∀ b : ι → S.Ret o, (∀ i a, f i = some a → b i = a) →
    Runs E (start (fun i => k i (b i)) d) (skipped k b f p)

theorem Read.step {f : ι → Option (S.Ret o)} (hf : Read E P o k d p f) {a : S.Ret o}
    (hi : f i = some a) (step : Step E p i q) : Read E P o k d q f where
  fresh j hj := by
    have hne : j ≠ i := by rintro rfl; rw [hj] at hi; cases hi
    rw [step.thread_ne hne, hf.fresh j hj]
  moment j a' hj := by
    obtain ⟨q', hon, hthread, heff⟩ := hf.moment j a' hj
    exact ⟨q', hon.next step, hthread, heff⟩
  rest b hb := .next (hf.rest b hb) (step.skipped (by rw [hi]; rfl))

theorem Read.first {f : ι → Option (S.Ret o)} (hP : ∀ i, P i = .perform (.op o) (k i))
    (hread : ∀ i d a d', E i o d a d' → d' = d) (hf : Read E P o k d p f)
    (front : Runs E (start P d) p) (hi : f i = none) (step : Step E p i q) :
    ∃ a, Read E P o k d q (Function.update f i (some a)) := by
  have hthread : p.thread i = .perform (.op o) (k i) := (hf.fresh i hi).trans (hP i)
  cases step with
  | @op o' k' a d' at_op effect =>
    obtain ⟨rfl, hk⟩ : o' = o ∧ HEq k' (k i) := by
      rw [hthread] at at_op
      injection at_op with hc hk
      injection hc with hc
      exact ⟨hc.symm, hk.symm⟩
    obtain rfl := eq_of_heq hk
    obtain rfl := hread _ _ _ _ effect
    refine ⟨a, ?_, ?_, ?_⟩
    · intro j hj
      have hne : j ≠ i := by rintro rfl; simp at hj
      rw [Function.update_of_ne hne] at hj
      exact (Function.update_of_ne hne _ _).trans (hf.fresh j hj)
    · intro j a' hj
      by_cases hne : j = i
      · subst hne
        obtain rfl : a = a' := by simpa using hj
        exact ⟨p, ⟨front, .one (.op at_op effect)⟩, hf.fresh j hi, effect⟩
      · rw [Function.update_of_ne hne] at hj
        obtain ⟨q', hon, hthread', heff⟩ := hf.moment j a' hj
        exact ⟨q', hon.next (.op at_op effect), hthread', heff⟩
    · intro b hb
      have hbi : b i = a := hb i a (Function.update_self ..)
      have hrest := hf.rest b fun j a' hj => by
        have hne : j ≠ i := by rintro rfl; rw [hj] at hi; cases hi
        exact hb j a' (by rwa [Function.update_of_ne hne])
      have hsame : skipped k b (Function.update f i (some a))
          { p.advance i (k i a) with data := p.data } = skipped k b f p := by
        simp only [skipped, advance, mk.injEq, and_self, and_true]
        funext j
        by_cases hne : j = i
        · subst hne
          simp [hi, hbi]
        · simp [hne]
      rw [hsame]
      exact hrest
  | acquire at_wait | timeout at_wait => cases hthread.symm.trans at_wait
  | release at_release => cases hthread.symm.trans at_release

theorem Runs.read (hP : ∀ i, P i = .perform (.op o) (k i))
    (hread : ∀ i d a d', E i o d a d' → d' = d) (h : Runs E (start P d) p) :
    ∃ f, Read E P o k d p f := by
  induction h with
  | refl => exact ⟨fun _ => none, fun _ _ => rfl, by simp, fun b _ => .refl _⟩
  | @next q r i front step ih =>
    obtain ⟨f, hf⟩ := ih
    cases hi : f i with
    | some a => exact ⟨f, hf.step hi step⟩
    | none =>
      obtain ⟨a, ha⟩ := hf.first hP hread front hi step
      exact ⟨_, ha⟩

/-- When every thread has moved, the run is one of the programs behind their first reading, and what
each has read was there at a moment of the run when it had not begun. -/
theorem Runs.after_read (hP : ∀ i, P i = .perform (.op o) (k i))
    (hread : ∀ i d a d', E i o d a d' → d' = d) (h : Runs E (start P d) p)
    (hmoved : ∀ i, p.thread i ≠ P i) : ∃ b : ι → S.Ret o,
      (∀ i, ∃ q, On E (start P d) p q ∧ q.thread i = P i ∧ E i o q.data (b i) q.data) ∧
      Runs E (start (fun i => k i (b i)) d) p := by
  obtain ⟨f, hf⟩ := h.read hP hread
  have hsome : ∀ i, ∃ a, f i = some a := fun i =>
    Option.ne_none_iff_exists'.mp fun hi => hmoved i (hf.fresh i hi)
  choose b hb using hsome
  have hsame : skipped k b f p = p := by
    simp [skipped, hb]
  refine ⟨b, fun i => hf.moment i (b i) (hb i), ?_⟩
  rw [← hsame]
  exact hf.rest b fun i a hi => Option.some.inj ((hb i).symm.trans hi)

end First

end Pool
end Script
