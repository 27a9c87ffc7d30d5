import Spazito.EcmaJson

set_option autoImplicit false

/-!
# How long a printed value gets

Units of a kind, and no more than so many of them: for numbers, dates and JSON texts.
-/
namespace Ecma

/-- Units of this kind only, at most so many. -/
structure Fits (p : CodeUnit → Prop) (n : ℕ) (s : JSString) : Prop where
  units : ∀ u ∈ s, p u
  length_le : s.length ≤ n

def Plain (u : CodeUnit) : Prop := 32 ≤ u ∧ u < 127 ∧ u ≠ 34 ∧ u ≠ 92

def Ascii (u : CodeUnit) : Prop := u < 128

instance : DecidablePred Plain := fun u =>
  inferInstanceAs (Decidable (32 ≤ u ∧ u < 127 ∧ u ≠ 34 ∧ u ≠ 92))

instance : DecidablePred Ascii := fun u => inferInstanceAs (Decidable (u < 128))

theorem Plain.ascii {u : CodeUnit} (h : Plain u) : Ascii u := by
  have hlt := h.2.1
  simp only [Ascii, UInt16.lt_iff_toNat_lt] at hlt ⊢
  exact hlt.trans (by decide)

namespace Fits

variable {p q : CodeUnit → Prop} {m n : ℕ} {s t : JSString}

theorem mono (h : Fits p m s) (hmn : m ≤ n) : Fits p n s := ⟨h.units, h.length_le.trans hmn⟩

theorem imp (h : Fits p n s) (hpq : ∀ u, p u → q u) : Fits q n s :=
  ⟨fun u hu => hpq u (h.units u hu), h.length_le⟩

theorem append (hs : Fits p m s) (ht : Fits p n t) : Fits p (m + n) (s ++ t) where
  units := fun u hu => (List.mem_append.mp hu).elim (hs.units u) (ht.units u)
  length_le := by
    rw [List.length_append]
    exact Nat.add_le_add hs.length_le ht.length_le

theorem cons {u : CodeUnit} (hu : p u) (hs : Fits p n s) : Fits p (n + 1) (u :: s) where
  units := List.forall_mem_cons.mpr ⟨hu, hs.units⟩
  length_le := Nat.succ_le_succ hs.length_le

theorem nil : Fits p 0 [] := ⟨fun _ h => (List.not_mem_nil h).elim, le_rfl⟩

theorem one {u : CodeUnit} (hu : p u) : Fits p 1 [u] := .cons hu .nil

theorem of_all [DecidablePred p] (hunits : s.all (fun u => decide (p u)) = true)
    (hlength : s.length ≤ n) : Fits p n s :=
  ⟨fun u hu => of_decide_eq_true (List.all_eq_true.mp hunits u hu), hlength⟩

theorem padStart {fill : CodeUnit} (hfill : p fill) (hs : Fits p n s) :
    Fits p (max m n) (padStart m fill s) where
  units := by
    intro u hu
    rcases List.mem_append.mp hu with hu | hu
    · rw [List.eq_of_mem_replicate hu]
      exact hfill
    · exact hs.units u hu
  length_le := by
    have := hs.length_le
    rw [Ecma.padStart, List.length_append, List.length_replicate]
    omega

end Fits

/-! ## Numbers and dates -/

theorem plain_of_isDigit {u : CodeUnit} (h : isDigit u = true) : Plain u := by
  simp only [isDigit, Bool.and_eq_true, decide_eq_true_eq, UInt16.le_iff_toNat_le] at h
  simp only [Plain, UInt16.le_iff_toNat_le, UInt16.lt_iff_toNat_lt, ne_eq, ← UInt16.toNat_inj]
  simp at h ⊢
  omega

theorem fits_decimal {n k : ℕ} (hk : 0 < k) (hn : n < 10 ^ k) : Fits Plain k (decimal n) where
  units := fun u hu => plain_of_isDigit (decimal_isDigit n u hu)
  length_le := by
    rw [decimal, List.length_map]
    exact (Nat.length_toDigits_le_iff (by decide) hk).mpr hn

theorem civilDate_bounds {n : ℕ} (hn : n ≤ 100000000) :
    (civilDate n).1 < 10 ^ 6 ∧ (civilDate n).2.1 < 10 ^ 2 ∧ (civilDate n).2.2 < 10 ^ 2 := by
  simp only [civilDate]
  refine ⟨?_, ?_, ?_⟩
  · split_ifs <;> omega
  · split_ifs <;> omega
  · omega

theorem fits_isoString (t : Time) : Fits Plain 27 (isoString t) := by
  have ht := t.property
  obtain ⟨hy, hm, hd⟩ := civilDate_bounds (n := t.val / 86400000) (by omega)
  have hplus : Fits Plain 1 (js "+") := .one (u := 43) (by decide)
  have hdash : Fits Plain 1 (js "-") := .one (u := 45) (by decide)
  have hletter : Fits Plain 1 (js "T") := .one (u := 84) (by decide)
  have hcolon : Fits Plain 1 (js ":") := .one (u := 58) (by decide)
  have hdot : Fits Plain 1 (js ".") := .one (u := 46) (by decide)
  have hzone : Fits Plain 1 (js "Z") := .one (u := 90) (by decide)
  have htwo {n : ℕ} (hn : n < 10 ^ 2) : Fits Plain 2 (padStart 2 48 (decimal n)) :=
    (fits_decimal (by decide) hn).padStart (m := 2) (by decide)
  have hyear : Fits Plain 7 (if (civilDate (t.val / 86400000)).1 ≤ 9999 then
      padStart 4 48 (decimal (civilDate (t.val / 86400000)).1)
      else js "+" ++ padStart 6 48 (decimal (civilDate (t.val / 86400000)).1)) := by
    split_ifs with h
    · exact ((fits_decimal (k := 4) (by decide) (by omega)).padStart (m := 4) (by decide)).mono (by decide)
    · exact hplus.append ((fits_decimal (by decide) hy).padStart (m := 6) (by decide))
  have hmillis : Fits Plain 3 (padStart 3 48 (decimal (t.val % 86400000 % 1000))) :=
    (fits_decimal (k := 3) (by decide) (by omega)).padStart (m := 3) (by decide)
  exact ((((((((((((hyear.append hdash).append (htwo hm)).append hdash).append (htwo hd)).append
    hletter).append (htwo (by omega))).append hcolon).append (htwo (by omega))).append
    hcolon).append (htwo (by omega))).append hdot).append hmillis).append
    hzone

/-! ## JSON -/

namespace Value

theorem escapeUnit_plain : ∀ u, Plain u → escapeUnit u = [u] := by
  intro u hu
  obtain ⟨hlow, hhigh, hquote, hslash⟩ := hu
  have hnone : shortEscapes.lookup u = none := by
    rw [List.lookup_eq_none_iff]
    intro e he
    simp only [UInt16.le_iff_toNat_le] at hlow
    simp only [shortEscapes, List.mem_cons, List.not_mem_nil, or_false] at he
    rcases he with rfl | rfl | rfl | rfl | rfl | rfl | rfl <;>
      simp [← UInt16.toNat_inj] at hquote hslash hlow ⊢ <;> omega
  have hsurrogate : (u < 32 || isHighSurrogate u || isLowSurrogate u) = false := by
    simp only [UInt16.le_iff_toNat_le, UInt16.lt_iff_toNat_lt] at hlow hhigh
    simp [isHighSurrogate, isLowSurrogate, UInt16.le_iff_toNat_le, UInt16.lt_iff_toNat_lt] at hlow hhigh ⊢
    omega
  rw [escapeUnit, hnone, hsurrogate]
  rfl

theorem quoteBody_plain {s : JSString} (h : ∀ u ∈ s, Plain u) : quoteBody s = s := by
  induction s with
  | nil => rfl
  | cons u s ih =>
    obtain ⟨hu, hs⟩ := List.forall_mem_cons.mp h
    cases s with
    | nil => exact escapeUnit_plain u hu
    | cons v s =>
      have hhigh : isHighSurrogate u = false := by
        have hlt := hu.2.1
        simp only [UInt16.lt_iff_toNat_lt] at hlt
        simp [isHighSurrogate, UInt16.le_iff_toNat_le] at hlt ⊢
        omega
      rw [quoteBody, hhigh, Bool.false_and, if_neg Bool.false_ne_true, escapeUnit_plain u hu, ih hs]
      rfl

theorem fits_quote {s : JSString} {n : ℕ} (h : Fits Plain n s) : Fits Ascii (n + 2) (quote s) := by
  rw [quote, quoteBody_plain h.units]
  exact ((h.imp fun _ => Plain.ascii).append (.one (by decide))).cons (by decide)

theorem fits_elementsText {xs : List Value} {n : ℕ} (h : ∀ x ∈ xs, Fits Ascii n (stringify x)) :
    Fits Ascii (xs.length * (n + 1)) (elementsText xs) := by
  induction xs with
  | nil => exact Fits.nil.mono (Nat.zero_le _)
  | cons x xs ih =>
    obtain ⟨hx, hxs⟩ := List.forall_mem_cons.mp h
    cases xs with
    | nil => exact hx.mono (by simp)
    | cons y xs =>
      have htext := hx.append ((ih hxs).cons (u := 44) (by decide))
      refine htext.mono ?_
      simp only [List.length_cons, Nat.add_mul]
      omega

theorem fits_array {xs : List Value} {count n : ℕ} (h : ∀ x ∈ xs, Fits Ascii n (stringify x))
    (hcount : xs.length ≤ count) : Fits Ascii (count * (n + 1) + 2) (stringify (.arr xs)) := by
  have htext := ((fits_elementsText h).append (.one (u := 93) (by decide))).cons (u := 91)
    (by decide)
  exact htext.mono (Nat.succ_le_succ (Nat.succ_le_succ (Nat.mul_le_mul_right _ hcount)))

theorem fits_member {key body rest : JSString} {k m n : ℕ} (hkey : Fits Plain k key)
    (hbody : Fits Ascii m body) (hrest : Fits Ascii n rest) :
    Fits Ascii (k + m + n + 4) (quote key ++ 58 :: body ++ 44 :: rest) := by
  have h := ((fits_quote hkey).append (hbody.cons (u := 58) (by decide))).append
    (hrest.cons (u := 44) (by decide))
  exact h.mono (by omega)

theorem fits_lastMember {key body : JSString} {k m : ℕ} (hkey : Fits Plain k key)
    (hbody : Fits Ascii m body) : Fits Ascii (k + m + 3) (quote key ++ 58 :: body) := by
  have h := (fits_quote hkey).append (hbody.cons (u := 58) (by decide))
  exact h.mono (by omega)

theorem fits_object {n : ℕ} {ps : List (JSString × Value)} (h : Fits Ascii n (membersText ps)) :
    Fits Ascii (n + 2) (stringify (.obj ps)) :=
  (h.append (.one (u := 125) (by decide))).cons (u := 123) (by decide)

end Value
end Ecma
