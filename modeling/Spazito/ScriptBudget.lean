import Spazito.ScriptEvents
import Spazito.ScriptMoments

set_option autoImplicit false

/-!
# Budgets

Every command has a price. A program affords a budget when no sequence of answers makes it spend more,
and what it has left over at its end may depend on how it ends. In a pool each thread keeps to its own
budget, whatever the others do.
-/
namespace Script

variable {S : Signature} {ε α β ι D M : Type}

namespace Prog

section Affords

variable [AddCommMonoid M] [PartialOrder M]

/-- With the budget `n` every command can be paid for, and `left x` is left over at the end `x`. -/
def Affords (price : Cmd S → M) (left : Except ε α → M) : Prog S ε α → M → Prop
  | ret a, n => left (.ok a) ≤ n
  | raise e, n => left (.error e) ≤ n
  | perform c k, n => ∃ m, price c + m ≤ n ∧ ∀ r, (k r).Affords price left m

/-- No end leaves anything over. -/
abbrev Costs (price : Cmd S → M) (p : Prog S ε α) (n : M) : Prop := p.Affords price (fun _ => 0) n

variable {price : Cmd S → M} {left mid : Except ε α → M} {left' : Except ε β → M} {n m : M}
  {p : Prog S ε α} {f : α → Prog S ε β} {g : ε → Prog S ε α}

theorem Affords.mono (hp : p.Affords price mid n) (hleft : ∀ x, left x ≤ mid x) (hn : n ≤ m) :
    p.Affords price left m := by
  induction p generalizing n m with
  | ret a => exact (hleft _).trans (hp.trans hn)
  | raise e => exact (hleft _).trans (hp.trans hn)
  | perform c k ih =>
    obtain ⟨rest, hpaid, hk⟩ := hp
    exact ⟨rest, hpaid.trans hn, fun r => ih r (hk r) le_rfl⟩

theorem Affords.le (hp : p.Affords price left n) (hn : n ≤ m) : p.Affords price left m :=
  hp.mono (fun _ => le_rfl) hn

theorem Affords.bind (hp : p.Affords price mid n)
    (hf : ∀ a, (f a).Affords price left' (mid (.ok a)))
    (he : ∀ e, left' (.error e) ≤ mid (.error e)) : (p.bind f).Affords price left' n := by
  induction p generalizing n with
  | ret a => exact (hf a).le hp
  | raise e => exact (he e).trans hp
  | perform c k ih =>
    obtain ⟨rest, hpaid, hk⟩ := hp
    exact ⟨rest, hpaid, fun r => ih r (hk r)⟩

theorem Affords.catchWith (hp : p.Affords price mid n) (hok : ∀ a, left (.ok a) ≤ mid (.ok a))
    (hg : ∀ e, (g e).Affords price left (mid (.error e))) :
    (p.catchWith g).Affords price left n := by
  induction p generalizing n with
  | ret a => exact (hok a).trans hp
  | raise e => exact (hg e).le hp
  | perform c k ih =>
    obtain ⟨rest, hpaid, hk⟩ := hp
    exact ⟨rest, hpaid, fun r => ih r (hk r)⟩

theorem affords_perform {c : Cmd S} {k : c.Ret → Prog S ε α}
    (hk : ∀ r, (k r).Affords price left m) : (perform c k).Affords price left (price c + m) :=
  ⟨m, le_rfl, hk⟩

section Free

variable [CanonicallyOrderedAdd M]

theorem costs_ret (a : α) : (ret a : Prog S ε α).Costs price n := zero_le

theorem costs_raise (e : ε) : (raise e : Prog S ε α).Costs price n := zero_le

theorem costs_orRaise (x : Except ε α) : (orRaise x : Prog S ε α).Costs price n := by
  cases x <;> exact zero_le

end Free

variable [IsOrderedAddMonoid M]

theorem Affords.frame (hp : p.Affords price left n) (m : M) :
    p.Affords price (fun x => left x + m) (n + m) := by
  induction p generalizing n with
  | ret a => exact add_le_add_left hp m
  | raise e => exact add_le_add_left hp m
  | perform c k ih =>
    obtain ⟨rest, hpaid, hk⟩ := hp
    refine ⟨rest + m, ?_, fun r => ih r (hk r)⟩
    rw [← add_assoc]
    exact add_le_add_left hpaid m

theorem Costs.andThen (hp : p.Costs price n) (hf : ∀ a, (f a).Affords price left' m)
    (he : ∀ e, left' (.error e) ≤ m) : (p.bind f).Affords price left' (n + m) := by
  refine (hp.frame m).bind (fun a => ?_) fun e => ?_
  · rw [zero_add]
    exact hf a
  · rw [zero_add]
    exact he e

variable [CanonicallyOrderedAdd M]

theorem Costs.bind (hp : p.Costs price n) (hf : ∀ a, (f a).Costs price m) :
    (p.bind f).Costs price (n + m) := hp.andThen hf fun _ => zero_le

theorem Costs.map (hp : p.Costs price n) (v : α → β) : (p.bind fun a => ret (v a)).Costs price n :=
  (hp.bind (m := 0) fun a => costs_ret (v a)).le (add_zero n).le

theorem Costs.catchWith (hp : p.Costs price n) (hg : ∀ e, (g e).Costs price m) :
    (p.catchWith g).Costs price (n + m) := by
  refine Affords.catchWith (hp.frame m) (fun _ => zero_le) fun e => ?_
  rw [zero_add]
  exact hg e

theorem Costs.andFinally {f : Prog S ε Unit} (hp : p.Costs price n) (hf : f.Costs price m) :
    (p.andFinally f).Costs price (n + m) := by
  induction p generalizing n with
  | ret a => exact (hf.bind fun _ => costs_ret a (n := 0)).le ((add_zero m).trans_le le_add_self)
  | raise e => exact (hf.bind fun _ => costs_raise e (n := 0)).le ((add_zero m).trans_le le_add_self)
  | perform c k ih =>
    obtain ⟨rest, hpaid, hk⟩ := hp
    refine ⟨rest + m, ?_, fun r => ih r (hk r)⟩
    rw [← add_assoc]
    exact add_le_add_left hpaid m

theorem Costs.follows {q : Prog S ε α} {t : List (Event S ι)} (hp : p.Costs price n)
    (h : p.Follows t q) : ((opsIn t).map price).sum ≤ n := by
  induction h generalizing n with
  | nil p => exact zero_le
  | cons takes _ ih =>
    cases takes with
    | op i k r =>
      obtain ⟨m, hpaid, hk⟩ := hp
      exact le_trans (add_le_add_right (ih (hk r)) _) hpaid
    | acquired i k | timedOut i k | released i k =>
      obtain ⟨m, hpaid, hk⟩ := hp
      exact (ih (hk _)).trans (le_add_self.trans hpaid)

end Affords

end Prog

/-! ## The bill of a run -/

namespace Pool

variable [DecidableEq ι] {E : Effect S ι D} {P : ι → Prog S ε α} {d : D} {p q : Pool S ε α ι D}
  {t : List (ι × Cmd S)}

/-- A run, with who performed which command, oldest first. -/
inductive Traced (E : Effect S ι D) :
    Pool S ε α ι D → List (ι × Cmd S) → Pool S ε α ι D → Prop
  | nil (p : Pool S ε α ι D) : Traced E p [] p
  | snoc {p q r : Pool S ε α ι D} {t : List (ι × Cmd S)} {i : ι} {c : Cmd S}
      {k : c.Ret → Prog S ε α} (front : Traced E p t q) (at_cmd : q.thread i = .perform c k)
      (step : Step E q i r) : Traced E p (t ++ [(i, c)]) r

theorem Step.exists_cmd {i : ι} (h : Step E p i q) :
    ∃ (c : Cmd S) (k : c.Ret → Prog S ε α), p.thread i = .perform c k := by
  cases h with
  | op at_op => exact ⟨_, _, at_op⟩
  | acquire at_wait => exact ⟨_, _, at_wait⟩
  | timeout at_wait => exact ⟨_, _, at_wait⟩
  | release at_release => exact ⟨_, _, at_release⟩

theorem Step.thread_self {i : ι} {c : Cmd S} {k : c.Ret → Prog S ε α} (h : Step E p i q)
    (hc : p.thread i = .perform c k) : ∃ r, q.thread i = k r := by
  have hgoes : ∀ (c' : Cmd S) (k' : c'.Ret → Prog S ε α) (r : c'.Ret),
      p.thread i = .perform c' k' → ∃ r', k' r = k r' := by
    intro c' k' r hc'
    cases hc'.symm.trans hc
    exact ⟨r, rfl⟩
  cases h with
  | @op o k' a _ at_op =>
    obtain ⟨r, hr⟩ := hgoes (.op o) k' a at_op
    exact ⟨r, (Function.update_self ..).trans hr⟩
  | @acquire n k' at_wait =>
    obtain ⟨r, hr⟩ := hgoes (.waitLock n) k' true at_wait
    exact ⟨r, (Function.update_self ..).trans hr⟩
  | @timeout n k' at_wait =>
    obtain ⟨r, hr⟩ := hgoes (.waitLock n) k' false at_wait
    exact ⟨r, (Function.update_self ..).trans hr⟩
  | @release k' at_release =>
    obtain ⟨r, hr⟩ := hgoes .releaseLock k' () at_release
    exact ⟨r, (Function.update_self ..).trans hr⟩

theorem Runs.traced (h : Runs E p q) : ∃ t, Traced E p t q := by
  induction h with
  | refl => exact ⟨[], .nil _⟩
  | next front step ih =>
    obtain ⟨t, ht⟩ := ih
    obtain ⟨c, k, hc⟩ := step.exists_cmd
    exact ⟨_, ht.snoc hc step⟩

section Bill

variable [AddCommMonoid M]

def bill (price : Cmd S → M) (t : List (ι × Cmd S)) (i : ι) : M :=
  ((t.filter fun m => m.1 = i).map fun m => price m.2).sum

theorem bill_concat (price : Cmd S → M) (t : List (ι × Cmd S)) (i j : ι) (c : Cmd S) :
    bill price (t ++ [(j, c)]) i = bill price t i + if j = i then price c else 0 := by
  unfold bill
  by_cases hj : j = i <;> simp [hj]

theorem sum_bill [Fintype ι] (price : Cmd S → M) (t : List (ι × Cmd S)) :
    ∑ i, bill price t i = (t.map fun m => price m.2).sum := by
  induction t using List.reverseRecOn with
  | nil => simp [bill]
  | append_singleton t m ih =>
    obtain ⟨j, c⟩ := m
    simp only [bill_concat, Finset.sum_add_distrib, ih, Finset.sum_ite_eq, Finset.mem_univ, if_true,
      List.map_append, List.sum_append, List.map_cons, List.map_nil, List.sum_singleton]

variable [PartialOrder M] [IsOrderedAddMonoid M] {price : Cmd S → M} {budget : ι → M}

theorem Traced.affords (hP : ∀ i, (P i).Costs price (budget i)) (h : Traced E (start P d) t p) (i : ι) :
    ∃ m, bill price t i + m ≤ budget i ∧ (p.thread i).Costs price m := by
  induction h with
  | nil => exact ⟨budget i, by simp [bill], hP i⟩
  | @snoc q r t j c k front at_cmd step ih =>
    obtain ⟨m, hm, hthread⟩ := ih
    rw [bill_concat]
    by_cases hj : j = i
    · subst hj
      rw [if_pos rfl]
      rw [at_cmd] at hthread
      obtain ⟨rest, hpaid, hk⟩ := hthread
      obtain ⟨a, ha⟩ : ∃ a, r.thread j = k a := step.thread_self at_cmd
      refine ⟨rest, ?_, ?_⟩
      · rw [add_assoc]
        exact (add_le_add_right hpaid _).trans hm
      · rw [ha]
        exact hk a
    · rw [if_neg hj, add_zero, step.thread_ne (Ne.symm hj)]
      exact ⟨m, hm, hthread⟩

theorem Traced.bill_le [CanonicallyOrderedAdd M] (hP : ∀ i, (P i).Costs price (budget i))
    (h : Traced E (start P d) t p) (i : ι) : bill price t i ≤ budget i := by
  obtain ⟨m, hm, -⟩ := h.affords hP i
  exact le_self_add.trans hm

end Bill

/-- Where every command counts, a budget bounds the length of every run. -/
theorem Traced.length_le [Fintype ι] {budget : ι → ℕ} (hP : ∀ i, (P i).Costs (fun _ => 1) (budget i))
    (h : Traced E (start P d) t p) : t.length ≤ ∑ i, budget i := by
  have hbill : t.length = ∑ i, bill (fun _ => 1) t i := by
    rw [sum_bill]
    simp
  rw [hbill]
  exact Finset.sum_le_sum fun i _ => h.bill_le hP i

/-- The pools of an endless run, and who moves. -/
def Endless (E : Effect S ι D) (f : ℕ → Pool S ε α ι D) (who : ℕ → ι) : Prop :=
  ∀ n, Step E (f n) (who n) (f (n + 1))

theorem Endless.traced {f : ℕ → Pool S ε α ι D} {who : ℕ → ι} (h : Endless E f who) (n : ℕ) :
    ∃ t, Traced E (f 0) t (f n) ∧ t.length = n := by
  induction n with
  | zero => exact ⟨[], .nil _, rfl⟩
  | succ n ih =>
    obtain ⟨t, ht, hlength⟩ := ih
    obtain ⟨c, k, hc⟩ := (h n).exists_cmd
    exact ⟨_, ht.snoc hc (h n), by rw [List.length_append, hlength, List.length_singleton]⟩

/-- Finitely many programs with budgets come to their end, however they are scheduled. -/
theorem not_endless [Fintype ι] {budget : ι → ℕ} (hP : ∀ i, (P i).Costs (fun _ => 1) (budget i))
    {f : ℕ → Pool S ε α ι D} {who : ℕ → ι} (hstart : f 0 = start P d) : ¬ Endless E f who := by
  intro h
  obtain ⟨t, ht, hlength⟩ := h.traced (∑ i, budget i + 1)
  rw [hstart] at ht
  have := ht.length_le hP
  omega

end Pool
end Script
