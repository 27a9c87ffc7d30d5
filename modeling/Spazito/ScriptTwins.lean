import Spazito.ScriptEvents

set_option autoImplicit false

/-!
# Two runs of a pool, step by step

Two programs are twins when they ask for the same kind of thing at every point, whatever pairs of alike
answers they have had. Two pools of twins, over data that answer alike, make the same moves.
-/
namespace Script

variable {S : Signature} {ε α β ι D : Type}

/-- Which operations may stand for each other, and which answers to them are alike. -/
structure Coupling (S : Signature) where
  pair : S.Op → S.Op → Prop
  alike : (o o' : S.Op) → S.Ret o → S.Ret o' → Prop

/-- An operation that is its own counterpart, with equal answers only. -/
def Coupling.Same (C : Coupling S) (o : S.Op) : Prop :=
  C.pair o o ∧ ∀ r r', C.alike o o r r' → r = r'

def Coupling.SameCmd (C : Coupling S) : Cmd S → Prop
  | .op o => C.Same o
  | .waitLock _ | .releaseLock => True

namespace Prog

inductive Twins (C : Coupling S) (Q : α → α → Prop) : Prog S ε α → Prog S ε α → Prop
  | ret {a a' : α} (ha : Q a a') : Twins C Q (ret a) (ret a')
  | raise (e : ε) : Twins C Q (raise e) (raise e)
  | op {o o' : S.Op} {k : S.Ret o → Prog S ε α} {k' : S.Ret o' → Prog S ε α} (ho : C.pair o o')
      (hk : ∀ r r', C.alike o o' r r' → Twins C Q (k r) (k' r')) :
      Twins C Q (perform (.op o) k) (perform (.op o') k')
  | waitLock (n : ℕ) {k k' : Bool → Prog S ε α} (hk : ∀ b, Twins C Q (k b) (k' b)) :
      Twins C Q (perform (.waitLock n) k) (perform (.waitLock n) k')
  | releaseLock {k k' : Unit → Prog S ε α} (hk : ∀ u, Twins C Q (k u) (k' u)) :
      Twins C Q (perform .releaseLock k) (perform .releaseLock k')

variable {C : Coupling S} {Q : α → α → Prop} {p q : Prog S ε α}

theorem Twins.bind {R : β → β → Prop} {f g : α → Prog S ε β} (h : Twins C Q p q)
    (hfg : ∀ a a', Q a a' → Twins C R (f a) (g a')) : Twins C R (p.bind f) (q.bind g) := by
  induction h with
  | ret ha => exact hfg _ _ ha
  | raise e => exact .raise e
  | op ho _ ih => exact .op ho ih
  | waitLock n _ ih => exact .waitLock n ih
  | releaseLock _ ih => exact .releaseLock ih

theorem Twins.catchWith {f g : ε → Prog S ε α} (h : Twins C Q p q)
    (hfg : ∀ e, Twins C Q (f e) (g e)) : Twins C Q (p.catchWith f) (q.catchWith g) := by
  induction h with
  | ret ha => exact .ret ha
  | raise e => exact hfg e
  | op ho _ ih => exact .op ho ih
  | waitLock n _ ih => exact .waitLock n ih
  | releaseLock _ ih => exact .releaseLock ih

theorem Within.twins (hp : p.Within C.SameCmd) : Twins C Eq p p := by
  induction p with
  | ret a => exact .ret rfl
  | raise e => exact .raise e
  | perform c k ih =>
    obtain ⟨hc, hk⟩ := hp
    cases c with
    | op o =>
      refine .op hc.1 fun r r' h => ?_
      rw [← hc.2 r r' h]
      exact ih r (hk r)
    | waitLock n => exact .waitLock n fun b => ih b (hk b)
    | releaseLock => exact .releaseLock fun u => ih u (hk u)

theorem Within.twins_bind {R : β → β → Prop} {f g : α → Prog S ε β} (hp : p.Within C.SameCmd)
    (hfg : ∀ a, Twins C R (f a) (g a)) : Twins C R (p.bind f) (p.bind g) := by
  refine hp.twins.bind fun a a' h => ?_
  rw [h]
  exact hfg a'

end Prog

/-! ## Twin runs -/

inductive Event.Alike (C : Coupling S) : Event S ι → Event S ι → Prop
  | op (i : ι) {o o' : S.Op} {r : S.Ret o} {r' : S.Ret o'} (ho : C.pair o o')
      (hr : C.alike o o' r r') : Alike C (.op i o r) (.op i o' r')
  | acquired (i : ι) : Alike C (.acquired i) (.acquired i)
  | timedOut (i : ι) : Alike C (.timedOut i) (.timedOut i)
  | released (i : ι) : Alike C (.released i) (.released i)

namespace Pool

variable [DecidableEq ι]

/-- Pools that cannot be told apart. -/
structure Twins (C : Coupling S) (L : D → D → Prop) (Q : α → α → Prop) (p q : Pool S ε α ι D) :
    Prop where
  thread : ∀ i, Prog.Twins C Q (p.thread i) (q.thread i)
  holder : p.holder = q.holder
  order : p.order = q.order
  data : L p.data q.data

section Twins

variable {C : Coupling S} {L : D → D → Prop} {Q : α → α → Prop} {E : Effect S ι D}

theorem Twins.advance {p q : Pool S ε α ι D} (h : Twins C L Q p q) (i : ι) {s t : Prog S ε α}
    (hst : Prog.Twins C Q s t) (j : ι) :
    Prog.Twins C Q ((p.advance i s).thread j) ((q.advance i t).thread j) := by
  by_cases hj : j = i
  · subst hj
    simpa [Pool.advance] using hst
  · simpa [Pool.advance, hj] using h.thread j

theorem Move.twins (hE : ∀ i o o' d d' r e, C.pair o o' → L d d' → E i o d r e →
      ∃ r' e', E i o' d' r' e' ∧ C.alike o o' r r' ∧ L e e')
    {p p' q : Pool S ε α ι D} (h : Twins C L Q p p') {x : Event S ι} (hmove : Move E p x q) :
    ∃ x' q', Move E p' x' q' ∧ Event.Alike C x x' ∧ Twins C L Q q q' := by
  have hi := h.thread x.tid
  generalize hi' : p'.thread x.tid = u at hi
  cases hmove with
  | @op i o k r d at_op effect =>
    rw [Event.tid, at_op] at hi
    cases hi with
    | op ho hk =>
      obtain ⟨r', e', heff, hr, hL⟩ := hE _ _ _ _ _ _ _ ho h.data effect
      exact ⟨_, _, .op hi' heff, .op i ho hr, h.advance i (hk _ _ hr), h.holder, h.order, hL⟩
  | @acquire i n k at_wait free =>
    rw [Event.tid, at_wait] at hi
    cases hi with
    | waitLock _ hk =>
      exact ⟨_, _, .acquire hi' (h.holder ▸ free), .acquired i, h.advance i (hk true), rfl,
        congrArg (· ++ [i]) h.order, h.data⟩
  | @timeout i n k at_wait =>
    rw [Event.tid, at_wait] at hi
    cases hi with
    | waitLock _ hk =>
      exact ⟨_, _, .timeout hi', .timedOut i, h.advance i (hk false), h.holder, h.order, h.data⟩
  | @release i k at_release =>
    rw [Event.tid, at_release] at hi
    cases hi with
    | releaseLock hk =>
      have hholder : (if p.holder = some i then none else p.holder) =
          if p'.holder = some i then none else p'.holder := by rw [h.holder]
      exact ⟨_, _, .release hi', .released i, h.advance i (hk ()), hholder, h.order, h.data⟩

theorem Course.twins (hE : ∀ i o o' d d' r e, C.pair o o' → L d d' → E i o d r e →
      ∃ r' e', E i o' d' r' e' ∧ C.alike o o' r r' ∧ L e e')
    {p p' q : Pool S ε α ι D} (h : Twins C L Q p p') {t : List (Event S ι)} (hrun : Course E p t q) :
    ∃ t' q', Course E p' t' q' ∧ t.Forall₂ (Event.Alike C) t' ∧ Twins C L Q q q' := by
  induction hrun with
  | refl => exact ⟨[], p', .refl, .nil, h⟩
  | next _ move ih =>
    obtain ⟨t', q', hrun', ht, hq⟩ := ih
    obtain ⟨x', r', move', hx, hr⟩ := move.twins hE hq
    exact ⟨t' ++ [x'], r', hrun'.next move', List.rel_append ht (.cons hx .nil), hr⟩

end Twins
end Pool
end Script
