import Spazito.EcmaInteger

set_option autoImplicit false

/-!
# Rounding to a double

How far the nearest double is, and that rounding keeps the order.
-/
namespace Ecma.Number

/-! ## The power of two below -/

theorem log2_bounds {q : ℚ} (hq : q ≠ 0) : 2 ^ log2 q ≤ |q| ∧ |q| < 2 ^ (log2 q + 1) := by
  have hnum : q.num.natAbs ≠ 0 := Int.natAbs_ne_zero.mpr (Rat.num_ne_zero.mpr hq)
  have hfraction : |q| = (q.num.natAbs : ℚ) / q.den := by
    rw [Nat.cast_natAbs, Int.cast_abs]
    nth_rewrite 1 [← Rat.num_div_den q]
    rw [abs_div, Nat.abs_cast]
  have hden : (0 : ℚ) < q.den := Nat.cast_pos.mpr q.den_pos
  have hnum_le : (2 : ℚ) ^ q.num.natAbs.log2 ≤ q.num.natAbs := by exact_mod_cast Nat.log2_self_le hnum
  have hnum_lt : (q.num.natAbs : ℚ) < 2 ^ (q.num.natAbs.log2 + 1) := by exact_mod_cast Nat.lt_log2_self
  have hden_le : (2 : ℚ) ^ q.den.log2 ≤ q.den := by exact_mod_cast Nat.log2_self_le q.den_nz
  have hden_lt : (q.den : ℚ) < 2 ^ (q.den.log2 + 1) := by exact_mod_cast Nat.lt_log2_self
  set a := q.num.natAbs.log2
  set b := q.den.log2
  have hupper : |q| < 2 ^ ((a : ℤ) - b + 1) := by
    have hpow : (2 : ℚ) ^ ((a : ℤ) - b + 1) * 2 ^ b = 2 ^ (a + 1) := by
      rw [← zpow_natCast, ← zpow_natCast, ← zpow_add₀ two_ne_zero]
      congr 1
      push_cast
      omega
    rw [hfraction, div_lt_iff₀ hden]
    calc (q.num.natAbs : ℚ) < 2 ^ (a + 1) := hnum_lt
      _ = 2 ^ ((a : ℤ) - b + 1) * 2 ^ b := hpow.symm
      _ ≤ 2 ^ ((a : ℤ) - b + 1) * q.den := by gcongr
  have hlower : 2 ^ ((a : ℤ) - b - 1) ≤ |q| := by
    have hpow : (2 : ℚ) ^ ((a : ℤ) - b - 1) * 2 ^ (b + 1) = 2 ^ a := by
      rw [← zpow_natCast, ← zpow_natCast, ← zpow_add₀ two_ne_zero]
      congr 1
      push_cast
      omega
    rw [hfraction, le_div_iff₀ hden]
    calc (2 : ℚ) ^ ((a : ℤ) - b - 1) * q.den ≤ 2 ^ ((a : ℤ) - b - 1) * 2 ^ (b + 1) := by gcongr
      _ = 2 ^ a := hpow
      _ ≤ q.num.natAbs := hnum_le
  have hlog : log2 q = if |q| < 2 ^ ((a : ℤ) - b) then (a : ℤ) - b - 1 else (a : ℤ) - b := rfl
  rw [hlog]
  split_ifs with hlt
  · rw [sub_add_cancel]
    exact ⟨hlower, hlt⟩
  · exact ⟨not_lt.mp hlt, hupper⟩

theorem log2_neg (q : ℚ) : log2 (-q) = log2 q := by simp [log2]

theorem log2_mono {p q : ℚ} (hp : 0 < p) (hpq : p ≤ q) : log2 p ≤ log2 q := by
  have hq := hp.trans_le hpq
  have hle : (2 : ℚ) ^ log2 p < 2 ^ (log2 q + 1) :=
    calc (2 : ℚ) ^ log2 p ≤ |p| := (log2_bounds hp.ne').1
      _ ≤ |q| := by rwa [abs_of_pos hp, abs_of_pos hq]
      _ < 2 ^ (log2 q + 1) := (log2_bounds hq.ne').2
  have hlt := (zpow_lt_zpow_iff_right₀ one_lt_two).mp hle
  omega

/-! ## Rounding to an integer -/

theorem roundHalfEven_near (q : ℚ) : |(roundHalfEven q : ℚ) - q| ≤ 1 / 2 := by
  have hle := Int.floor_le q
  have hlt := Int.lt_floor_add_one q
  rw [abs_le, roundHalfEven]
  split_ifs <;> push_cast <;> constructor <;> linarith

theorem roundHalfEven_mono {p q : ℚ} (h : p ≤ q) : roundHalfEven p ≤ roundHalfEven q := by
  have hfloor := Int.floor_le_floor h
  have hp := Int.floor_le p
  have hq := Int.lt_floor_add_one q
  rcases hfloor.lt_or_eq with hlt | heq
  · have hp' : roundHalfEven p ≤ ⌊p⌋ + 1 := by
      unfold roundHalfEven
      dsimp only
      split_ifs <;> omega
    have hq' : ⌊q⌋ ≤ roundHalfEven q := by
      unfold roundHalfEven
      dsimp only
      split_ifs <;> omega
    omega
  · unfold roundHalfEven
    dsimp only
    rw [heq]
    split_ifs <;> first | omega | (exfalso; linarith)

theorem roundHalfEven_neg (q : ℚ) : roundHalfEven (-q) = -roundHalfEven q := by
  by_cases hq : (⌊q⌋ : ℚ) = q
  · rw [← hq, ← Int.cast_neg, roundHalfEven_intCast, roundHalfEven_intCast]
  · have hlt : (⌊q⌋ : ℚ) < q := lt_of_le_of_ne (Int.floor_le q) hq
    have hfloor : ⌊-q⌋ = -⌊q⌋ - 1 := by
      rw [Int.floor_eq_iff]
      push_cast
      exact ⟨by linarith [Int.lt_floor_add_one q], by linarith⟩
    unfold roundHalfEven
    dsimp only
    rw [hfloor]
    push_cast
    split_ifs <;> first | omega | (exfalso; linarith)

/-! ## The nearest double -/

def lastPlace (q : ℚ) : ℤ := max (log2 q - 52) (-1074)

def nearest (q : ℚ) : ℚ := roundHalfEven (q / 2 ^ lastPlace q) * 2 ^ lastPlace q

theorem ofRat_eq (q : ℚ) :
    ofRat q = if 2 ^ 1024 ≤ |nearest q| then infinity (decide (q < 0)) else finite (nearest q) := rfl

theorem nearest_of_ofRat {q r : ℚ} (h : ofRat q = finite r) : r = nearest q := by
  rw [ofRat_eq] at h
  split_ifs at h
  exact (finite.inj h).symm

theorem nearest_near (q : ℚ) : |nearest q - q| ≤ 2 ^ lastPlace q / 2 := by
  have hpos : (0 : ℚ) < 2 ^ lastPlace q := zpow_pos two_pos _
  have hscale : nearest q - q = (roundHalfEven (q / 2 ^ lastPlace q) - q / 2 ^ lastPlace q) *
      2 ^ lastPlace q := by
    rw [nearest, sub_mul, div_mul_cancel₀ _ hpos.ne']
  rw [hscale, abs_mul, abs_of_pos hpos]
  calc |(roundHalfEven (q / 2 ^ lastPlace q) : ℚ) - q / 2 ^ lastPlace q| * 2 ^ lastPlace q
      ≤ 1 / 2 * 2 ^ lastPlace q := by gcongr; exact roundHalfEven_near _
    _ = 2 ^ lastPlace q / 2 := by ring

@[simp] theorem nearest_zero : nearest 0 = 0 := by
  rw [nearest, zero_div, ← Int.cast_zero, roundHalfEven_intCast, Int.cast_zero, zero_mul]

/-- Half a unit in the last of 53 binary places, or of the least double. -/
theorem nearest_error (q : ℚ) : |nearest q - q| ≤ max (|q| / 2 ^ 53) (1 / 2 ^ 1075) := by
  by_cases hq : q = 0
  · rw [hq, nearest_zero, sub_zero, abs_zero, zero_div]
    exact le_max_left _ _
  · apply (nearest_near q).trans
    rw [lastPlace]
    rcases max_choice (log2 q - 52) (-1074) with hmax | hmax
    · have hplace : (2 : ℚ) ^ (log2 q - 52) / 2 = 2 ^ log2 q / 2 ^ 53 := by
        rw [zpow_sub₀ two_ne_zero, div_div]
        norm_num
      rw [hmax, hplace]
      apply le_max_of_le_left
      gcongr
      exact (log2_bounds hq).1
    · have hleast : (2 : ℚ) ^ (-1074 : ℤ) / 2 = 1 / 2 ^ 1075 := by
        rw [zpow_neg, ← one_div, div_div, show (1074 : ℤ) = (1074 : ℕ) from rfl, zpow_natCast, ← pow_succ]
      rw [hmax, hleast]
      exact le_max_right _ _

theorem nearest_neg (q : ℚ) : nearest (-q) = -nearest q := by
  rw [nearest, nearest, lastPlace, lastPlace, log2_neg, neg_div, roundHalfEven_neg, Int.cast_neg, neg_mul]

theorem nearest_nonneg {q : ℚ} (h : 0 ≤ q) : 0 ≤ nearest q := by
  have hround : (0 : ℤ) ≤ roundHalfEven (q / 2 ^ lastPlace q) := by
    have hmono := roundHalfEven_mono (show ((0 : ℤ) : ℚ) ≤ q / 2 ^ lastPlace q by positivity)
    rwa [roundHalfEven_intCast] at hmono
  exact mul_nonneg (by exact_mod_cast hround) (zpow_pos two_pos _).le

theorem zpow_div_lastPlace {q : ℚ} {m : ℤ} (hm : lastPlace q ≤ m) :
    ∃ n : ℤ, (2 : ℚ) ^ m = n * 2 ^ lastPlace q := by
  obtain ⟨k, hk⟩ := Int.le.dest hm
  refine ⟨2 ^ k, ?_⟩
  rw [← hk, zpow_add₀ two_ne_zero, zpow_natCast, mul_comm]
  push_cast
  rfl

theorem nearest_le_zpow {q : ℚ} {m : ℤ} (h : q ≤ 2 ^ m) (hm : lastPlace q ≤ m) : nearest q ≤ 2 ^ m := by
  obtain ⟨n, hn⟩ := zpow_div_lastPlace hm
  have hpos : (0 : ℚ) < 2 ^ lastPlace q := zpow_pos two_pos _
  have hround : roundHalfEven (q / 2 ^ lastPlace q) ≤ n := by
    rw [← roundHalfEven_intCast n]
    apply roundHalfEven_mono
    rwa [div_le_iff₀ hpos, ← hn]
  rw [nearest, hn]
  gcongr

theorem zpow_le_nearest {q : ℚ} {m : ℤ} (h : 2 ^ m ≤ q) (hm : lastPlace q ≤ m) : 2 ^ m ≤ nearest q := by
  obtain ⟨n, hn⟩ := zpow_div_lastPlace hm
  have hpos : (0 : ℚ) < 2 ^ lastPlace q := zpow_pos two_pos _
  have hround : n ≤ roundHalfEven (q / 2 ^ lastPlace q) := by
    rw [← roundHalfEven_intCast n]
    apply roundHalfEven_mono
    rwa [le_div_iff₀ hpos, ← hn]
  rw [nearest, hn]
  gcongr

theorem nearest_mono_pos {p q : ℚ} (hp : 0 < p) (h : p ≤ q) : nearest p ≤ nearest q := by
  have hq := hp.trans_le h
  have hlog := log2_mono hp h
  have hplaces : lastPlace p ≤ lastPlace q := max_le_max_right _ (sub_le_sub_right hlog 52)
  rcases hplaces.eq_or_lt with heq | hlt
  · have hround := roundHalfEven_mono (show p / 2 ^ lastPlace q ≤ q / 2 ^ lastPlace q by gcongr)
    rw [nearest, nearest, heq]
    gcongr
  · have hplace : lastPlace q = log2 q - 52 := by
      unfold lastPlace at hlt ⊢
      omega
    have hless : log2 p < log2 q := by
      unfold lastPlace at hlt
      omega
    have hbelow : p ≤ 2 ^ log2 q :=
      calc p = |p| := (abs_of_pos hp).symm
        _ ≤ 2 ^ (log2 p + 1) := (log2_bounds hp.ne').2.le
        _ ≤ 2 ^ log2 q := zpow_le_zpow_right₀ one_le_two (by omega)
    have habove : 2 ^ log2 q ≤ q :=
      calc (2 : ℚ) ^ log2 q ≤ |q| := (log2_bounds hq.ne').1
        _ = q := abs_of_pos hq
    exact (nearest_le_zpow hbelow (by omega)).trans (zpow_le_nearest habove (by omega))

theorem nearest_mono {p q : ℚ} (h : p ≤ q) : nearest p ≤ nearest q := by
  rcases lt_or_ge 0 p with hp | hp
  · exact nearest_mono_pos hp h
  · have hlow : nearest p ≤ 0 := by
      have hneg := nearest_nonneg (neg_nonneg.mpr hp)
      rwa [nearest_neg, neg_nonneg] at hneg
    rcases lt_or_ge q 0 with hq | hq
    · have hneg := nearest_mono_pos (neg_pos.mpr hq) (neg_le_neg h)
      rwa [nearest_neg, nearest_neg, neg_le_neg_iff] at hneg
    · exact hlow.trans (nearest_nonneg hq)

end Ecma.Number
