import Spazito.EcmaJson

set_option autoImplicit false

/-!
# Which values have a text

A coercion to a text or to a number fails on one kind of value only: an object with a `toString` of
its own, by itself or within an array, however deep.
-/
namespace Ecma.Value

mutual
/-- No object to be printed has a `toString` of its own. -/
def Printable : Value → Prop
  | undefined | null | bool _ | num _ | str _ => True
  | arr xs => PrintableElements xs
  | obj ps => ∀ p ∈ ps, p.1 ≠ js "toString"

def PrintableElements : List Value → Prop
  | [] => True
  | x :: xs => Printable x ∧ PrintableElements xs
end

mutual
theorem elementText_ok : ∀ v : Value, (∃ s, elementText v = .ok s) ↔ Printable v
  | undefined | null | bool _ | num _ | str _ => by simp [elementText, Printable]
  | arr xs => by
    rw [elementText, Printable]
    exact joinText_ok xs
  | obj ps => by
    have hown : (ps.any fun p => p.1 = js "toString") = true ↔ ∃ p ∈ ps, p.1 = js "toString" := by
      rw [List.any_eq_true]
      simp only [decide_eq_true_eq]
    rw [elementText, Printable]
    split_ifs with h
    · obtain ⟨p, hp, heq⟩ := hown.mp h
      exact ⟨nofun, fun hall => absurd heq (hall p hp)⟩
    · exact ⟨fun _ p hp heq => h (hown.mpr ⟨p, hp, heq⟩), fun _ => ⟨_, rfl⟩⟩

theorem joinText_ok : ∀ xs : List Value, (∃ s, joinText xs = .ok s) ↔ PrintableElements xs
  | [] => by simp [joinText, PrintableElements]
  | [x] => by
    rw [joinText, PrintableElements, PrintableElements, and_true]
    exact elementText_ok x
  | x :: y :: xs => by
    rw [joinText, PrintableElements, ← elementText_ok x, ← joinText_ok (y :: xs)]
    constructor
    · rintro ⟨s, h⟩
      obtain ⟨a, ha, h⟩ := bind_eq_ok.mp h
      obtain ⟨b, hb, -⟩ := bind_eq_ok.mp h
      exact ⟨⟨a, ha⟩, b, hb⟩
    · rintro ⟨⟨a, ha⟩, b, hb⟩
      exact ⟨_, bind_eq_ok.mpr ⟨a, ha, bind_eq_ok.mpr ⟨b, hb, rfl⟩⟩⟩
end

instance : DecidablePred Printable := fun v =>
  decidable_of_iff ((elementText v).isOk = true) (by
    rw [← elementText_ok]
    cases elementText v <;> simp [Except.isOk, Except.toBool])

theorem toText_ok (v : Value) : (∃ s, toText v = .ok s) ↔ Printable v := by
  cases v
  case undefined | null => simp [toText, Printable]
  all_goals exact elementText_ok _

theorem toNumber_ok (v : Value) : (∃ x, toNumber v = .ok x) ↔ Printable v := by
  have hread {v : Value} : (∃ x, (toText v).map Number.ofText = .ok x) ↔ ∃ s, toText v = .ok s := by
    cases toText v with
    | ok s => simp [Except.map]
    | error f => simp [Except.map]
  cases v
  case undefined | null | bool | num => simp [toNumber, Printable]
  all_goals rw [toNumber, hread, toText_ok]
  all_goals nofun

end Ecma.Value
