import Spazito.EcmaNumber

set_option autoImplicit false

/-!
# Integers of any size

An integer too large for 53 bits is rounded to another integer. Nothing that is printed with a minus
sign is read back as a positive number.
-/
namespace Ecma.Number

theorem le_finite_iff {x : Number} {n : ℕ} : le x (finite n) = true ↔
    x = infinity true ∨ ∃ q : ℚ, x = finite q ∧ q ≤ n := by
  cases x with
  | nan => simp [le]
  | infinity b => cases b <;> simp [le, lt]
  | finite q => simp [le, lt]

theorem natCast_le_of_le {m n : ℕ} {x : Number} (hm : le (finite m) x = true)
    (hn : le x (finite n) = true) : m ≤ n := by
  rcases le_finite_iff.mp hn with rfl | ⟨q, rfl, hq⟩
  · cases hm
  · have hmq : (m : ℚ) ≤ q := by simpa [le, lt] using hm
    exact_mod_cast hmq.trans hq

theorem le_log2_intCast (z : ℤ) (h : 2 ^ 53 ≤ z.natAbs) : 53 ≤ log2 z := by
  have hz : z.natAbs ≠ 0 := by omega
  have hl : 53 ≤ z.natAbs.log2 := (Nat.le_log2 hz).mpr h
  have h1 : Nat.log2 1 = 0 := by decide
  have hlow : ((2 : ℚ) ^ ((z.natAbs.log2 : ℤ) - ((0 : ℕ) : ℤ))) ≤ |(z : ℚ)| := by
    have hpow : 2 ^ z.natAbs.log2 ≤ z.natAbs := Nat.log2_self_le hz
    rw [Nat.cast_zero, sub_zero, zpow_natCast, ← Int.cast_abs, ← Nat.cast_natAbs]
    exact_mod_cast hpow
  simp only [log2, Rat.num_intCast, Rat.den_intCast, h1]
  rw [if_neg (not_lt.mpr hlow)]
  omega

theorem ofRat_intCast_cases (z : ℤ) : (∃ b, ofRat z = infinity b) ∨ ∃ m : ℤ, ofRat z = finite m := by
  by_cases h : z.natAbs ≤ 2 ^ 53
  · exact .inr ⟨z, ofRat_intCast z h⟩
  · have hlog := le_log2_intCast z (by omega)
    rw [ofRat]
    split_ifs
    · exact .inl ⟨_, rfl⟩
    · obtain ⟨k, hk⟩ := Int.eq_ofNat_of_zero_le
        (show 0 ≤ max (log2 z - 52) (-1074) by omega)
      refine .inr ⟨roundHalfEven ((z : ℚ) / 2 ^ max (log2 z - 52) (-1074)) * 2 ^ k, ?_⟩
      rw [hk]
      push_cast
      rw [zpow_natCast]

theorem roundHalfEven_nonpos {q : ℚ} (h : q ≤ 0) : roundHalfEven q ≤ 0 := by
  have hfloor : ⌊q⌋ ≤ 0 := by exact_mod_cast (Int.floor_le q).trans h
  rcases hfloor.eq_or_lt with hzero | hneg
  · have hq : q = 0 := by
      have hle := Int.floor_le q
      rw [hzero, Int.cast_zero] at hle
      exact le_antisymm h hle
    rw [hq]
    exact (roundHalfEven_intCast 0).le
  · unfold roundHalfEven
    dsimp only
    split_ifs <;> omega

theorem ofRat_nonpos {q : ℚ} (h : q ≤ 0) : le (ofRat q) (finite (0 : ℕ)) = true := by
  rw [le_finite_iff, ofRat]
  have hr : (roundHalfEven (q / 2 ^ max (log2 q - 52) (-1074)) : ℚ) *
      2 ^ max (log2 q - 52) (-1074) ≤ 0 := by
    have hround : (roundHalfEven (q / 2 ^ max (log2 q - 52) (-1074)) : ℚ) ≤ 0 := by
      exact_mod_cast roundHalfEven_nonpos (div_nonpos_of_nonpos_of_nonneg h (by positivity))
    exact mul_nonpos_of_nonpos_of_nonneg hround (by positivity)
  split_ifs with hbig
  · refine .inl (congrArg infinity (decide_eq_true (lt_of_le_of_ne h ?_)))
    rintro rfl
    have hzero : roundHalfEven 0 = 0 := roundHalfEven_intCast 0
    rw [zero_div, hzero, Int.cast_zero, zero_mul, abs_zero] at hbig
    exact absurd hbig (not_le.mpr (by positivity))
  · exact .inr ⟨_, rfl, by exact_mod_cast hr⟩

/-- A text with a minus sign is not read as a positive number. -/
theorem parseInt_minus (t : JSString) :
    parseInt (js "-" ++ t) = nan ∨ le (parseInt (js "-" ++ t)) (finite (0 : ℕ)) = true := by
  have hsplit : splitSign ((js "-" ++ t).dropWhile isSpace) = (true, t) := by
    have hdash : isSpace 45 = false := by decide
    change splitSign ((45 :: t).dropWhile isSpace) = _
    rw [List.dropWhile_cons_of_neg (by simp [hdash])]
    rfl
  rw [parseInt, hsplit]
  dsimp only
  rw [if_pos rfl]
  split_ifs
  · exact .inl rfl
  · exact .inr (ofRat_nonpos (neg_nonpos.mpr (Nat.cast_nonneg _)))

theorem toText_neg {q : ℚ} (h : q < 0) : ∃ t, toText (finite q) = js "-" ++ t := by
  rw [toText]
  split_ifs
  · exact ⟨decimal q.num.natAbs, if_pos (Rat.num_neg.mpr h)⟩
  · exact ⟨_, rfl⟩

theorem parseInt_toText_nonpos {x : Number} (h : le x (finite (0 : ℕ)) = true) :
    parseInt x.toText = nan ∨ le (parseInt x.toText) (finite (0 : ℕ)) = true := by
  rcases le_finite_iff.mp h with rfl | ⟨q, rfl, hq⟩
  · exact parseInt_minus (js "Infinity")
  · rcases (show q ≤ 0 by exact_mod_cast hq).eq_or_lt with rfl | hneg
    · have hzero := parseInt_decimal 0 (by norm_num)
      rw [← toText_natCast 0 (by norm_num), Nat.cast_zero] at hzero
      rw [hzero]
      exact .inr (by decide)
    · obtain ⟨t, ht⟩ := toText_neg hneg
      rw [ht]
      exact parseInt_minus t

theorem parseInt_cases (s : JSString) :
    parseInt s = nan ∨ (∃ b, parseInt s = infinity b) ∨ ∃ m : ℤ, parseInt s = finite m := by
  rw [parseInt]
  dsimp only
  split_ifs
  · exact .inl rfl
  · exact .inr (ofRat_intCast_cases (-(digitsValue _ : ℤ)))
  · exact .inr (ofRat_intCast_cases (digitsValue _ : ℤ))

theorem add_one_cases {x : Number} {n : ℕ} (hx : (∃ b, x = infinity b) ∨ ∃ m : ℤ, x = finite m)
    (h : le x (finite n) = true) (hn : n + 1 ≤ 2 ^ 53) :
    (∃ k ≤ n + 1, add x (finite 1) = finite (k : ℕ)) ∨
      le (add x (finite 1)) (finite (0 : ℕ)) = true := by
  rcases le_finite_iff.mp h with rfl | ⟨q, rfl, hq⟩
  · exact .inr (by decide)
  · obtain ⟨b, hb⟩ | ⟨m, hm⟩ := hx
    · cases hb
    · obtain rfl : q = m := by simpa using hm
      have hmn : m ≤ n := by exact_mod_cast hq
      rcases Int.lt_or_le m 0 with hneg | hnonneg
      · have hsum : ((m : ℚ) + 1) ≤ 0 := by exact_mod_cast hneg
        exact .inr (ofRat_nonpos hsum)
      · obtain ⟨k, rfl⟩ := Int.eq_ofNat_of_zero_le hnonneg
        refine .inl ⟨k + 1, by omega, ?_⟩
        simpa using add_natCast k 1 (by omega)

end Ecma.Number
