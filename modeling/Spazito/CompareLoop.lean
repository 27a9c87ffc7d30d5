import Spazito.SecureCompare

set_option autoImplicit false

/-!
# The loop of the comparison

The comparison with its index and its 32-bit accumulator, and how many rounds it takes.
-/
namespace Spazito.SecureCompare
open Ecma

/-- `b`, or `a` again where the lengths differ. -/
def otherOf (a b : JSString) : JSString := if a.length = b.length then b else a

/-- The loop from the index `i` on: what is left in `diff`, and the rounds taken. -/
def walk (a other : JSString) (i : ℕ) (diff : UInt32) : UInt32 × ℕ :=
  if i < a.length then
    let rest := walk a other (i + 1)
      (diff ||| (charCodeAt a i).toUInt32 ^^^ (charCodeAt other i).toUInt32)
    (rest.1, rest.2 + 1)
  else (diff, 0)
termination_by a.length - i

theorem walk_rounds (a other : JSString) (i : ℕ) (diff : UInt32) :
    (walk a other i diff).2 = a.length - i := by
  fun_induction walk with
  | case1 i diff hi rest ih =>
    change (walk a other (i + 1) _).2 + 1 = _
    rw [ih]
    omega
  | case2 i diff hi => omega

theorem walk_eq_zero (a other : JSString) (i : ℕ) (diff : UInt32) :
    (walk a other i diff).1 = 0 ↔
      diff = 0 ∧ ∀ j, i ≤ j → j < a.length → charCodeAt a j = charCodeAt other j := by
  fun_induction walk with
  | case1 i diff hi rest ih =>
    change (walk a other (i + 1) _).1 = 0 ↔ _
    rw [ih, UInt32.or_eq_zero_iff, UInt32.xor_eq_zero_iff, UInt16.toUInt32_inj, and_assoc]
    refine and_congr_right fun _ => ?_
    constructor
    · rintro ⟨hhere, hlater⟩ j hij hj
      rcases hij.eq_or_lt with rfl | hlt
      · exact hhere
      · exact hlater j hlt hj
    · intro h
      exact ⟨h i le_rfl hi, fun j hij hj => h j (by omega) hj⟩
  | case2 i diff hi =>
    refine (and_iff_left fun j hij hj => ?_).symm
    omega

theorem walk_start (a b : JSString) :
    (walk a (otherOf a b) 0 (if a.length = b.length then 0 else 1)).1 = 0 ↔ a = b := by
  rw [walk_eq_zero, otherOf]
  split_ifs with hlen
  · rw [and_iff_right rfl]
    constructor
    · intro h
      refine List.ext_getElem hlen fun j ha hb => ?_
      simpa [charCodeAt, ha, hb] using h j (Nat.zero_le j) ha
    · rintro rfl j - -
      rfl
  · refine iff_of_false (fun h => ?_) fun h => hlen (by rw [h])
    exact absurd h.1 (by decide)

/-- **The comparison is equality of strings**, by a loop as long as its first argument. -/
theorem equals_exact :
    (∀ x y : Value, equals x y = true ↔ ∃ s, x = .str s ∧ y = .str s) ∧
    ∀ a b : JSString,
      let looped := walk a (otherOf a b) 0 (if a.length = b.length then 0 else 1)
      equals (.str a) (.str b) = (looped.1 == 0) ∧ looped.2 = a.length := by
  refine ⟨fun x y => ?_, fun a b => ⟨?_, walk_rounds a (otherOf a b) 0 _⟩⟩
  · cases x with
    | str a =>
      cases y with
      | str b => simp [equals_str, eq_comm]
      | undefined | null | bool _ | num _ | arr _ | obj _ => simp [equals]
    | undefined | null | bool _ | num _ | arr _ | obj _ => simp [equals]
  · rw [equals_str, Bool.eq_iff_iff, decide_eq_true_eq, beq_iff_eq]
    exact (walk_start a b).symm

end Spazito.SecureCompare
