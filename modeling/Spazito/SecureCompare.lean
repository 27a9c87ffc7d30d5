import Spazito.EcmaJson

set_option autoImplicit false

/-! # core/SecureCompare.js: string equality in constant time -/
namespace Spazito.SecureCompare
open Ecma

/-- Past the end `charCodeAt` gives NaN, which counts as zero in a bitwise operation. -/
def charCodeAt (s : JSString) (i : ℕ) : CodeUnit := s.getD i 0

/-- What each round of the loop finds: one difference for every unit of `a`. -/
def differences (a b : JSString) : List CodeUnit :=
  let other := if a.length = b.length then b else a
  (List.range a.length).map fun i => charCodeAt a i ^^^ charCodeAt other i

def equals : Value → Value → Bool
  | .str a, .str b =>
    (differences a b).foldl (· ||| ·) (if a.length = b.length then 0 else 1) == 0
  | _, _ => false

theorem foldl_or_eq_zero (ds : List CodeUnit) (d : CodeUnit) :
    ds.foldl (· ||| ·) d = 0 ↔ d = 0 ∧ ∀ x ∈ ds, x = 0 := by
  induction ds generalizing d with
  | nil => simp
  | cons x ds ih =>
    rw [List.foldl_cons, ih, UInt16.or_eq_zero_iff, List.forall_mem_cons, and_assoc]

theorem differences_eq_zero {a b : JSString} (h : a.length = b.length) :
    (∀ x ∈ differences a b, x = 0) ↔ a = b := by
  simp only [differences, h, ↓reduceIte, List.mem_map, List.mem_range, forall_exists_index, and_imp,
    forall_apply_eq_imp_iff₂, UInt16.xor_eq_zero_iff]
  constructor
  · intro hd
    refine List.ext_getElem h fun i ha hb => ?_
    simpa [charCodeAt, ha, hb] using hd i hb
  · rintro rfl i -
    rfl

theorem equals_str (a b : JSString) : equals (.str a) (.str b) = decide (a = b) := by
  rw [equals, Bool.eq_iff_iff, beq_iff_eq, foldl_or_eq_zero, decide_eq_true_eq]
  by_cases h : a.length = b.length
  · simp only [h, ↓reduceIte, true_and]
    exact differences_eq_zero h
  · have hne : a ≠ b := fun he => h (by rw [he])
    simp [h, hne]

end Spazito.SecureCompare
