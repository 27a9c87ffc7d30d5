import Mathlib

set_option autoImplicit false

/-!
# Rosters

Lists without repetition of elements that are admitted, up to a capacity. The order is the order of
entry.
-/
structure Roster (α : Type) (admits : α → Prop) (cap : ℕ) where
  items : List α
  nodup : items.Nodup
  admitted : ∀ x ∈ items, admits x
  bounded : items.length ≤ cap

namespace Roster

variable {α : Type} {admits : α → Prop} {cap : ℕ}

def append (r : Roster α admits cap) (x : α) (hx : admits x) (hnew : x ∉ r.items)
    (hroom : r.items.length < cap) : Roster α admits cap where
  items := r.items ++ [x]
  nodup := List.nodup_append.mpr ⟨r.nodup, List.nodup_singleton x, by
    rintro a ha b hb rfl
    rw [List.mem_singleton] at hb
    exact hnew (hb ▸ ha)⟩
  admitted := by
    intro y hy
    rcases List.mem_append.mp hy with hy | hy
    · exact r.admitted y hy
    · rw [List.mem_singleton.mp hy]
      exact hx
  bounded := by
    rw [List.length_append, List.length_singleton]
    exact hroom

variable [DecidableEq α]

def drop (r : Roster α admits cap) (x : α) : Roster α admits cap where
  items := r.items.filter (· ≠ x)
  nodup := r.nodup.filter _
  admitted := fun y hy => r.admitted y (List.mem_of_mem_filter hy)
  bounded := (List.length_filter_le _ _).trans r.bounded

omit [DecidableEq α] in
@[simp] theorem append_items (r : Roster α admits cap) (x : α) (hx : admits x)
    (hnew : x ∉ r.items) (hroom : r.items.length < cap) :
    (r.append x hx hnew hroom).items = r.items ++ [x] := rfl

@[simp] theorem drop_items (r : Roster α admits cap) (x : α) :
    (r.drop x).items = r.items.filter (· ≠ x) := rfl

end Roster
