import Mathlib.Data.List.TakeWhile
import Mathlib.Data.List.Infix
import Mathlib.Data.List.Count

set_option autoImplicit false

/-!
# Logs of a running system

What a log holds since the last entry of a kind, unbroken series of entries, and the parts of a log
around two of its entries.
-/
namespace Script.Log

variable {α : Type}

/-- The entries after the last one that satisfies `p`. -/
def since (p : α → Bool) (log : List α) : List α := (log.reverse.takeWhile fun x => !p x).reverse

@[simp] theorem since_nil (p : α → Bool) : since p [] = [] := rfl

@[simp] theorem since_concat (p : α → Bool) (log : List α) (x : α) :
    since p (log ++ [x]) = if p x then [] else since p log ++ [x] := by
  cases h : p x <;> simp [since, h]

theorem since_suffix (p : α → Bool) (log : List α) : since p log <:+ log := by
  have h := List.takeWhile_prefix (l := log.reverse) fun x => !p x
  simpa [since] using List.reverse_suffix.mpr h

theorem not_of_mem_since {p : α → Bool} {log : List α} : ∀ x ∈ since p log, p x = false := by
  intro x hx
  simpa using List.mem_takeWhile_imp (List.mem_reverse.mp hx)

theorem since_map {β : Type} (f : β → α) (p : α → Bool) (log : List β) :
    since p (log.map f) = (since (fun x => p (f x)) log).map f := by
  rw [since, ← List.map_reverse, List.takeWhile_map, ← List.map_reverse]
  rfl

theorem since_or (p q : α → Bool) (log : List α) :
    since (fun x => p x || q x) log = since p (since q log) := by
  simp [since, List.takeWhile_takeWhile]

theorem suffix_since {p : α → Bool} {log run : List α} (h : run <:+ log)
    (hp : ∀ x ∈ run, p x = false) : run <:+ since p log := by
  induction log using List.reverseRecOn generalizing run with
  | nil =>
    rw [List.suffix_nil.mp h]
    exact List.nil_suffix
  | append_singleton log x ih =>
    rcases List.eq_nil_or_concat run with rfl | ⟨run, y, rfl⟩
    · exact List.nil_suffix
    · rw [List.concat_eq_append] at h hp ⊢
      obtain ⟨zs, hz⟩ := h
      rw [← List.append_assoc] at hz
      obtain ⟨hlog, hy⟩ := List.append_inj' hz rfl
      obtain rfl : y = x := by simpa using hy
      obtain ⟨ws, hw⟩ := ih ⟨zs, hlog⟩ fun z hz => hp z (List.mem_append_left _ hz)
      rw [since_concat, hp y (by simp), ← hw]
      exact ⟨ws, by simp⟩

/-- Somewhere in the log, `n` entries count before one breaks the series. -/
def Series (counts breaks : α → Bool) (n : ℕ) (log : List α) : Prop :=
  ∃ run, run <:+: log ∧ (∀ x ∈ run, breaks x = false) ∧ n ≤ run.countP counts

theorem not_series_nil (counts breaks : α → Bool) {n : ℕ} (hn : 0 < n) :
    ¬ Series counts breaks n [] := by
  rintro ⟨run, hrun, -, hcount⟩
  rw [List.infix_nil.mp hrun] at hcount
  simp at hcount
  omega

theorem Series.concat {counts breaks : α → Bool} {n : ℕ} {log : List α}
    (h : Series counts breaks n log) (x : α) : Series counts breaks n (log ++ [x]) := by
  obtain ⟨run, hrun, hbreaks, hcount⟩ := h
  exact ⟨run, hrun.trans (List.prefix_append ..).isInfix, hbreaks, hcount⟩

theorem series_concat (counts breaks : α → Bool) (n : ℕ) (log : List α) (x : α) :
    Series counts breaks n (log ++ [x]) ↔
      Series counts breaks n log ∨ n ≤ (since breaks (log ++ [x])).countP counts := by
  constructor
  · rintro ⟨run, ⟨xs, ys, h⟩, hbreaks, hcount⟩
    rcases List.eq_nil_or_concat ys with rfl | ⟨ys, y, rfl⟩
    · rw [List.append_nil] at h
      exact .inr (hcount.trans (suffix_since ⟨xs, h⟩ hbreaks).sublist.countP_le)
    · rw [List.concat_eq_append, ← List.append_assoc] at h
      exact .inl ⟨run, ⟨xs, ys, (List.append_inj' h rfl).1⟩, hbreaks, hcount⟩
  · rintro (h | h)
    · exact h.concat x
    · exact ⟨_, (since_suffix breaks _).isInfix, not_of_mem_since, h⟩

theorem split_two {x y : α} {log : List α} (hx : x ∈ log) (hy : y ∈ log) (hne : x ≠ y) :
    (∃ front mid rest, log = front ++ x :: (mid ++ y :: rest)) ∨
      ∃ front mid rest, log = front ++ y :: (mid ++ x :: rest) := by
  obtain ⟨front, rest, rfl⟩ := List.append_of_mem hx
  rcases List.mem_append.mp hy with hy | hy
  · obtain ⟨before, mid, rfl⟩ := List.append_of_mem hy
    exact .inr ⟨before, mid, rest, by simp⟩
  · obtain ⟨mid, after, rfl⟩ := List.append_of_mem ((List.mem_cons.mp hy).resolve_left hne.symm)
    exact .inl ⟨front, mid, after, rfl⟩

theorem exists_split_two {p : α → Bool} {log : List α} (h : 2 ≤ log.countP p) :
    ∃ front x mid y rest, log = front ++ x :: (mid ++ y :: rest) ∧ p x = true ∧ p y = true := by
  obtain ⟨x, hx, hpx⟩ := List.countP_pos_iff.mp (by omega : 0 < log.countP p)
  obtain ⟨front, rest, rfl⟩ := List.append_of_mem hx
  rw [List.countP_append, List.countP_cons_of_pos hpx] at h
  rcases Nat.eq_zero_or_pos (rest.countP p) with hnone | hmore
  · obtain ⟨y, hy, hpy⟩ := List.countP_pos_iff.mp (by omega : 0 < front.countP p)
    obtain ⟨before, mid, rfl⟩ := List.append_of_mem hy
    exact ⟨before, y, mid, x, rest, by simp, hpy, hpx⟩
  · obtain ⟨y, hy, hpy⟩ := List.countP_pos_iff.mp hmore
    obtain ⟨mid, after, rfl⟩ := List.append_of_mem hy
    exact ⟨front, x, mid, y, after, rfl, hpx, hpy⟩

end Script.Log
