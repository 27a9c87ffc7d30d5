import Mathlib

set_option autoImplicit false

/-!
# Histories cut by age and by number

A history grows at its end. A bounded record of it keeps what is not too old, and of that the last
few entries; it can be updated from itself, without the history.
-/
namespace Recency

variable {α : Type} {p q : α → Bool} {history : List α}

def Persists (p : α → Bool) (history : List α) : Prop :=
  history.Pairwise fun x y => p x = true → p y = true

theorem Persists.split (h : Persists p history) : ∃ old recent, history = old ++ recent ∧
    (∀ x ∈ old, p x = false) ∧ ∀ x ∈ recent, p x = true := by
  induction history with
  | nil => exact ⟨[], [], rfl, by simp, by simp⟩
  | cons x history ih =>
    obtain ⟨hx, hrest⟩ := List.pairwise_cons.mp h
    by_cases hp : p x = true
    · exact ⟨[], x :: history, rfl, by simp, List.forall_mem_cons.mpr ⟨hp, fun y hy => hx y hy hp⟩⟩
    · obtain ⟨old, recent, rfl, hold, hrecent⟩ := ih hrest
      exact ⟨x :: old, recent, rfl, List.forall_mem_cons.mpr ⟨by simpa using hp, hold⟩, hrecent⟩

/-- What is not too old is the end of the history. -/
theorem Persists.filter_eq (h : Persists p history) : ∃ old, history = old ++ history.filter p ∧
    ∀ x ∈ old, p x = false := by
  obtain ⟨old, recent, rfl, hold, hrecent⟩ := h.split
  refine ⟨old, ?_, hold⟩
  rw [List.filter_append, List.filter_eq_nil_iff.mpr (by simpa using hold),
    List.filter_eq_self.mpr hrecent, List.nil_append]

theorem Persists.rtake_filter (h : Persists p history) (n : ℕ) :
    (history.filter p).rtake n = (history.rtake n).filter p := by
  obtain ⟨old, recent, rfl, hold, hrecent⟩ := h.split
  have hnone : old.filter p = [] := List.filter_eq_nil_iff.mpr (by simpa using hold)
  rw [List.filter_append, hnone, List.filter_eq_self.mpr hrecent, List.nil_append]
  unfold List.rtake
  rw [List.length_append]
  by_cases hn : recent.length ≤ n
  · rw [List.drop_append_of_le_length (by omega), List.filter_append,
      List.filter_eq_self.mpr hrecent, Nat.sub_eq_zero_of_le hn]
    rw [List.filter_eq_nil_iff.mpr fun x hx => by simpa using hold x (List.mem_of_mem_drop hx)]
    rfl
  · have hlen : old.length + recent.length - n = old.length + (recent.length - n) := by omega
    rw [hlen, List.drop_append]
    simp only [Nat.le_add_right, List.drop_eq_nil_of_le, List.nil_append, Nat.add_sub_cancel_left]
    exact (List.filter_eq_self.mpr fun x hx => hrecent x (List.mem_of_mem_drop hx)).symm

/-- A bounded record is updated from itself. -/
theorem rtake_rtake_append (history : List α) (x : α) (n : ℕ) :
    (history.rtake n ++ [x]).rtake n = (history ++ [x]).rtake n := by
  cases n with
  | zero => simp
  | succ n =>
    rw [List.rtake_concat_succ, List.rtake_concat_succ]
    simp only [List.rtake_eq_reverse_take_reverse, List.reverse_reverse, List.take_take,
      Nat.min_eq_left (Nat.le_succ n)]

theorem rtake_suffix (history : List α) (n : ℕ) : history.rtake n <:+ history :=
  List.drop_suffix _ _

/-! ## The record -/

/-- The entries that are not too old, the last `n` of them. -/
def kept (p : α → Bool) (n : ℕ) (history : List α) : List α := (history.filter p).rtake n

theorem kept_suffix (h : Persists p history) (n : ℕ) : kept p n history <:+ history := by
  obtain ⟨old, hold, -⟩ := h.filter_eq
  exact (rtake_suffix _ n).trans ⟨old, hold.symm⟩

theorem mem_kept (h : Persists p history) {n : ℕ} {x : α} :
    x ∈ kept p n history ↔ x ∈ history.rtake n ∧ p x = true := by
  rw [kept, h.rtake_filter, List.mem_filter]

theorem filter_kept (hq : Persists q history) (hpq : ∀ x, q x = true → p x = true) (n : ℕ) :
    (kept p n history).filter q = kept q n history := by
  have hfilter : (history.filter p).filter q = history.filter q := by
    rw [List.filter_filter]
    refine List.filter_congr fun x _ => ?_
    cases hx : q x with
    | true => simp [hpq x hx]
    | false => simp
  have hsub : Persists q (history.filter p) := hq.sublist List.filter_sublist
  rw [kept, ← hsub.rtake_filter, hfilter, kept]

theorem kept_append (hq : Persists q history) (hpq : ∀ x, q x = true → p x = true) {x : α}
    (hx : q x = true) (n : ℕ) :
    ((kept p n history).filter q ++ [x]).rtake n = kept q n (history ++ [x]) := by
  have hsingle : [x].filter q = [x] := List.filter_eq_self.mpr (by simpa using hx)
  rw [filter_kept hq hpq, kept, kept, rtake_rtake_append, List.filter_append, hsingle]

end Recency
