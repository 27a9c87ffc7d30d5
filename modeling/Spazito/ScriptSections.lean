import Spazito.ScriptPool

set_option autoImplicit false

/-!
# What a thread of a pool does, by its program

A locked section is an uninterrupted run of its body on the protected part (`Ends`). The way of a
thread through a sequence, a locked section and its rest is read off its program.
-/
namespace Script

variable {S : Signature} {ε α β ι D V : Type}

namespace Prog

/-- Operations only: neither a wait nor a release. -/
def Lockless (p : Prog S ε α) : Prop := p.Within fun c => ∃ o, c = .op o

theorem Lockless.bind {p : Prog S ε α} {f : α → Prog S ε β} (hp : p.Lockless)
    (hf : ∀ a, (f a).Lockless) : (p.bind f).Lockless := Within.bind hp hf

@[simp] theorem orRaise_ok_bind (a : α) (f : α → Prog S ε β) :
    (orRaise (.ok a) : Prog S ε α).bind f = f a := rfl
@[simp] theorem orRaise_error_bind (e : ε) (f : α → Prog S ε β) :
    (orRaise (.error e) : Prog S ε α).bind f = raise e := rfl

/-- `mutate` under the lock, or `onBusy` without it. -/
def locked (n : ℕ) (mutate onBusy : Prog S ε α) : Prog S ε α :=
  perform (.waitLock n) fun (obtained : Bool) =>
    if obtained then mutate.andFinally (perform .releaseLock fun _ => ret ()) else onBusy

end Prog

section

variable (E : Effect S ι D) (good : D → Prop) (view : D → V)

/-- From its first command to its end, a program without lock commands takes the protected part from
one view to another. -/
inductive Ends (i : ι) : V → Prog S ε α → V → Except ε α → Prop
  | ret (v : V) (a : α) : Ends i v (.ret a) v (.ok a)
  | raise (v : V) (e : ε) : Ends i v (.raise e) v (.error e)
  | op {d d' : D} {o : S.Op} {k : S.Ret o → Prog S ε α} {r : S.Ret o} {v' : V} {x : Except ε α}
      (hd : good d) (effect : E i o d r d') (tail : Ends i (view d') (k r) v' x) :
      Ends i (view d) (.perform (.op o) k) v' x

variable {E good view} {i : ι} {v v' : V} {x : Except ε α}

@[simp] theorem ends_ret (a : α) :
    Ends E good view i v (.ret a : Prog S ε α) v' x ↔ v' = v ∧ x = .ok a := by
  constructor
  · rintro ⟨⟩
    exact ⟨rfl, rfl⟩
  · rintro ⟨rfl, rfl⟩
    exact .ret _ _

@[simp] theorem ends_raise (e : ε) :
    Ends E good view i v (.raise e : Prog S ε α) v' x ↔ v' = v ∧ x = .error e := by
  constructor
  · rintro ⟨⟩
    exact ⟨rfl, rfl⟩
  · rintro ⟨rfl, rfl⟩
    exact .raise _ _

@[simp] theorem ends_orRaise (y : Except ε α) :
    Ends E good view i v (Prog.orRaise y : Prog S ε α) v' x ↔ v' = v ∧ x = y := by
  cases y <;> simp [Prog.orRaise]

theorem ends_perform {o : S.Op} {k : S.Ret o → Prog S ε α} :
    Ends E good view i v (.perform (.op o) k) v' x ↔ ∃ d r d', good d ∧ view d = v ∧
      E i o d r d' ∧ Ends E good view i (view d') (k r) v' x := by
  constructor
  · rintro ⟨⟩
    exact ⟨_, _, _, ‹_›, rfl, ‹_›, ‹_›⟩
  · rintro ⟨d, r, d', hd, rfl, heff, htail⟩
    exact .op hd heff htail

theorem ends_bind {p : Prog S ε β} {f : β → Prog S ε α} :
    Ends E good view i v (p.bind f) v' x ↔
      ∃ w y, Ends E good view i v p w y ∧ Ends E good view i w ((Prog.orRaise y).bind f) v' x := by
  induction p generalizing v with
  | ret b => simp [Prog.orRaise]
  | raise e => simp [Prog.orRaise]
  | perform c k ih =>
    cases c with
    | op o =>
      refine (ends_perform (k := fun r => (k r).bind f)).trans ?_
      constructor
      · rintro ⟨d, r, d', hd, hv, heff, hbind⟩
        obtain ⟨w, y, hk, hrest⟩ := (ih r).mp hbind
        exact ⟨w, y, ends_perform.mpr ⟨d, r, d', hd, hv, heff, hk⟩, hrest⟩
      · rintro ⟨w, y, hp, hrest⟩
        obtain ⟨d, r, d', hd, hv, heff, hk⟩ := ends_perform.mp hp
        exact ⟨d, r, d', hd, hv, heff, (ih r).mpr ⟨w, y, hk, hrest⟩⟩
    | waitLock n => exact iff_of_false (by rintro ⟨⟩) (by rintro ⟨_, _, ⟨⟩, _⟩)
    | releaseLock => exact iff_of_false (by rintro ⟨⟩) (by rintro ⟨_, _, ⟨⟩, _⟩)

/-! ## Locked sections -/

theorem inside_releaseLock {k k' : Unit → Prog S ε α}
    (h : Inside E good view i v (.perform .releaseLock k) v' (.perform .releaseLock k')) :
    v' = v ∧ k' = k := by
  generalize hq : (Prog.perform .releaseLock k' : Prog S ε α) = q at h
  cases h with
  | refl =>
    injection hq with _ hk
    exact ⟨rfl, hk⟩

theorem Inside.section {p : Prog S ε β} (hp : p.Lockless) {f : β → Prog S ε α}
    {k : Unit → Prog S ε α}
    (h : Inside E good view i v ((p.andFinally (.perform .releaseLock fun _ => .ret ())).bind f) v'
      (.perform .releaseLock k)) :
    ∃ y, Ends E good view i v p v' y ∧ k () = (Prog.orRaise y).bind f := by
  induction p generalizing v with
  | ret b =>
    obtain ⟨rfl, rfl⟩ := inside_releaseLock h
    exact ⟨.ok b, .ret _ _, rfl⟩
  | raise e =>
    obtain ⟨rfl, rfl⟩ := inside_releaseLock h
    exact ⟨.error e, .raise _ _, rfl⟩
  | perform c k' ih =>
    obtain ⟨⟨o, rfl⟩, hk⟩ := hp
    generalize hq : (Prog.perform .releaseLock k : Prog S ε α) = q at h
    cases h with
    | refl => cases hq
    | op hd hv heff tail =>
      subst hv hq
      obtain ⟨y, hy, hrest⟩ := ih _ (hk _) tail
      exact ⟨y, .op hd heff hy, hrest⟩

theorem Inside.view_eq {p q : Prog S ε α} (hE : ∀ o d r d', E i o d r d' → view d' = view d)
    (h : Inside E good view i v p v' q) : v' = v := by
  induction h with
  | refl => rfl
  | op _ hv heff _ ih => rw [ih, hE _ _ _ _ heff, hv]

/-! ## Trails -/

variable {ss : List (Section S ε α ι V)}

abbrev Finished (E : Effect S ι D) (good : D → Prop) (i : ι) (p : Prog S ε α)
    (ss : List (Section S ε α ι V)) (x : Except ε α) : Prop :=
  Trail E good i p ss (Prog.orRaise x)

theorem finished_orRaise {y : Except ε α} (h : Finished E good i (Prog.orRaise y) ss x) :
    ss = [] ∧ x = y := by
  cases y <;> cases x <;> cases h <;> exact ⟨rfl, rfl⟩

/-- Outside the lock nothing is known but what holds of every good store. -/
theorem Finished.bind {p : Prog S ε β} (hp : p.Lockless) {f : β → Prog S ε α}
    (h : Finished E good i (p.bind f) ss x) :
    ∃ y, Ends E good (fun _ => ()) i () p () y ∧ Finished E good i ((Prog.orRaise y).bind f) ss x := by
  induction p with
  | ret b => exact ⟨.ok b, .ret _ _, h⟩
  | raise e => exact ⟨.error e, .raise _ _, h⟩
  | perform c k ih =>
    obtain ⟨⟨o, rfl⟩, hk⟩ := hp
    rw [Finished] at h
    generalize hq : (Prog.orRaise x : Prog S ε α) = q at h
    cases h with
    | refl => cases x <;> cases hq
    | op hd heff tail =>
      subst hq
      obtain ⟨y, hy, hrest⟩ := ih _ (hk _) tail
      exact ⟨y, .op hd heff hy, hrest⟩

theorem Finished.lockless {p : Prog S ε α} (hp : p.Lockless) (h : Finished E good i p ss x) :
    ss = [] ∧ Ends E good (fun _ => ()) i () p () x := by
  rw [← Prog.bind_ret p] at h
  obtain ⟨y, hy, hrest⟩ := Finished.bind hp h
  cases y with
  | ok a =>
    obtain ⟨hss, rfl⟩ := finished_orRaise (y := .ok a) hrest
    exact ⟨hss, hy⟩
  | error e =>
    obtain ⟨hss, rfl⟩ := finished_orRaise (y := .error e) hrest
    exact ⟨hss, hy⟩

/-- A locked part either found the lock busy or is one section of the thread. -/
theorem Finished.locked {n : ℕ} {mutate onBusy : Prog S ε β} {f : β → Prog S ε α}
    (hm : mutate.Lockless) (hclosed : ∀ s ∈ ss, s.Closed E good view)
    (h : Finished E good i ((Prog.locked n mutate onBusy).bind f) ss x) :
    Finished E good i (onBusy.bind f) ss x ∨
      ∃ s rest y, ss = s :: rest ∧ s.tid = i ∧ Ends E good view i s.entry mutate s.exit y ∧
        Finished E good i ((Prog.orRaise y).bind f) rest x := by
  rw [Finished] at h
  generalize hq : (Prog.orRaise x : Prog S ε α) = q at h
  cases h with
  | refl => cases x <;> cases hq
  | timeout tail =>
    subst hq
    exact .inl tail
  | @locked n' k s rest q own body tail =>
    subst hq
    obtain ⟨k', hinside, hafter⟩ := hclosed s (by simp)
    rw [body, own] at hinside
    obtain ⟨y, hy, hk⟩ := Inside.section hm hinside
    rw [← hafter, hk] at tail
    exact .inr ⟨s, rest, y, rfl, own, hy, tail⟩

end

/-! ## Chains -/

section

variable [DecidableEq ι]

theorem mem_mine {i : ι} {ss : List (Section S ε α ι V)} {s : Section S ε α ι V} :
    s ∈ mine i ss ↔ s ∈ ss ∧ s.tid = i := by simp [mine]

theorem count_tid (i : ι) (ss : List (Section S ε α ι V)) :
    (ss.map (·.tid)).count i = (mine i ss).length := by
  rw [List.count_eq_countP, List.countP_map, List.countP_eq_length_filter]
  rfl

end

section

variable {E : Effect S ι D} {good : D → Prop} {view : D → V}

theorem Chain.closed {v v' : V} {ss : List (Section S ε α ι V)} (h : Chain E good view v ss v') :
    ∀ s ∈ ss, s.Closed E good view := by
  induction h with
  | nil => simp
  | snoc _ hclosed ih =>
    intro s hs
    rcases List.mem_append.mp hs with hs | hs
    · exact ih s hs
    · rw [List.mem_singleton.mp hs]
      exact hclosed

end
end Script
