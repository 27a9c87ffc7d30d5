import Spazito.DailyText
import Spazito.EcmaRounding

set_option autoImplicit false

/-!
# The amounts on the line

How far a displayed amount is from the price that the source gave, in exact decimals.
-/
namespace Spazito.Formatter
open Ecma

/-! ## Decimals read exactly -/

def exactValue (s : JSString) : Option ℚ :=
  let (negative, t) := Number.splitSign s
  (Number.unsignedDecimal t).map fun q => if negative then -q else q

def readAmount (s : JSString) : Option ℚ := exactValue (s.filter (· ≠ 44))

theorem takeWhile_digits {ds rest : JSString} (hds : ∀ u ∈ ds, isDigit u = true)
    (hrest : ∀ u ∈ rest.head?, isDigit u = false) :
    (ds ++ rest).takeWhile isDigit = ds ∧ (ds ++ rest).dropWhile isDigit = rest := by
  rw [List.takeWhile_append_of_pos hds, List.dropWhile_append_of_pos hds]
  cases rest with
  | nil => simp
  | cons u rest => simp [hrest u rfl]

theorem takeWhile_all {ds : JSString} (hds : ∀ u ∈ ds, isDigit u = true) :
    ds.takeWhile isDigit = ds ∧ ds.dropWhile isDigit = [] := by
  have h := takeWhile_digits hds (show ∀ u ∈ ([] : JSString).head?, isDigit u = false by simp)
  rwa [List.append_nil] at h

theorem unsignedDecimal_whole {ds : JSString} (hds : Digits ds) :
    Number.unsignedDecimal ds = some (digitsValue ds : ℚ) := by
  obtain ⟨htake, hdrop⟩ := takeWhile_all hds.2
  simp [Number.unsignedDecimal, htake, hdrop, hds.1, Number.exponentPart]

theorem unsignedDecimal_fraction {ip fp : JSString} (hip : Digits ip) (hfp : ∀ u ∈ fp, isDigit u = true) :
    Number.unsignedDecimal (ip ++ (js "." ++ fp)) =
      some ((digitsValue (ip ++ fp) : ℚ) / 10 ^ fp.length) := by
  have hdot : js "." = [46] := by decide
  obtain ⟨htake, hdrop⟩ := takeWhile_digits hip.2
    (show ∀ u ∈ (js "." ++ fp).head?, isDigit u = false by simp [hdot, isDigit])
  obtain ⟨htake', hdrop'⟩ := takeWhile_all hfp
  simp only [Number.unsignedDecimal, htake, hdrop]
  simp [hdot, htake', hdrop', hip.1, Number.exponentPart, zpow_neg, div_eq_mul_inv]

theorem splitSign_minus (t : JSString) : Number.splitSign (js "-" ++ t) = (true, t) := by
  have hminus : js "-" = [45] := by decide
  rw [hminus]
  rfl

theorem splitSign_digit {ip t : JSString} (hip : Digits ip) :
    Number.splitSign (ip ++ t) = (false, ip ++ t) := by
  obtain ⟨hne, hdigits⟩ := hip
  cases ip with
  | nil => exact (hne rfl).elim
  | cons u ip =>
    have hu := hdigits u (by simp)
    have hminus : u ≠ 45 := by
      rintro rfl
      cases hu
    have hplus : u ≠ 43 := by
      rintro rfl
      cases hu
    simp [Number.splitSign, hminus, hplus]

theorem exactValue_parts {sign ip fp : JSString} (hsign : sign = [] ∨ sign = js "-") (hip : Digits ip)
    {v : ℚ} (hfp : Number.unsignedDecimal (ip ++ fp) = some v) :
    exactValue (sign ++ (ip ++ fp)) = some (if sign = [] then v else -v) := by
  have hminus : js "-" ≠ [] := by decide
  unfold exactValue
  rcases hsign with rfl | rfl
  · rw [List.nil_append, splitSign_digit hip]
    simp [hfp]
  · rw [splitSign_minus]
    simp [hfp, hminus]

theorem IsDecimal.units {s : JSString} (h : IsDecimal s) : ∀ u ∈ s, isMoneyUnit u = true := by
  obtain ⟨sign, ip, fp, rfl, hsign, hip, hfp⟩ := h
  have hminus : (js "-").all isMoneyUnit = true := by decide
  have hdot : (js ".").all isMoneyUnit = true := by decide
  intro u hu
  rcases List.mem_append.mp hu with hu | hu
  · rcases hsign with rfl | rfl
    · cases hu
    · exact List.all_eq_true.mp hminus u hu
  rcases List.mem_append.mp hu with hu | hu
  · exact units_of_digits hip.2 u hu
  · rcases hfp with rfl | ⟨ds, rfl, hds⟩
    · cases hu
    · rcases List.mem_append.mp hu with hu | hu
      · exact List.all_eq_true.mp hdot u hu
      · exact units_of_digits hds.2 u hu

theorem IsDecimal.exactValue {s : JSString} (h : IsDecimal s) : ∃ v, exactValue s = some v := by
  obtain ⟨sign, ip, fp, rfl, hsign, hip, hfp⟩ := h
  rcases hfp with rfl | ⟨ds, rfl, hds⟩
  · have hvalue := unsignedDecimal_whole hip
    rw [← List.append_nil ip] at hvalue
    exact ⟨_, exactValue_parts hsign hip hvalue⟩
  · exact ⟨_, exactValue_parts hsign hip (unsignedDecimal_fraction hip hds.2)⟩

theorem IsDecimal.ofText {s : JSString} (h : IsDecimal s) (htrim : trim s = s) {v : ℚ}
    (hv : Formatter.exactValue s = some v) : Number.ofText s = Number.ofRat v := by
  have hunits := h.units
  have hword {w : JSString} (hw : w.all isMoneyUnit = false) {t : JSString} (ht : ∀ u ∈ t, u ∈ s) :
      t ≠ w := by
    rintro rfl
    rw [List.all_eq_true.mpr fun u hu => hunits u (ht u hu)] at hw
    cases hw
  have htake {w : JSString} (hw : w.all isMoneyUnit = false) : s.take 2 ≠ w :=
    hword hw fun u hu => List.mem_of_mem_take hu
  have hrest {u : CodeUnit} (hu : u ∈ (Number.splitSign s).2) : u ∈ s := by
    unfold Number.splitSign at hu
    split at hu
    · split_ifs at hu <;> simp_all
    · exact hu
  have hne : s ≠ [] := by
    rintro rfl
    obtain ⟨sign, ip, fp, hnil, -, hip, -⟩ := h
    simp [hip.1] at hnil
  unfold Formatter.exactValue at hv
  unfold Number.ofText
  dsimp only
  rw [htrim, if_neg hne, if_neg (not_or.mpr ⟨htake (by decide), htake (by decide)⟩),
    if_neg (not_or.mpr ⟨htake (by decide), htake (by decide)⟩),
    if_neg (not_or.mpr ⟨htake (by decide), htake (by decide)⟩), if_neg (hword (by decide) fun u => hrest)]
  generalize Number.splitSign s = parts at hv ⊢
  obtain ⟨negative, t⟩ := parts
  obtain ⟨q, hq, rfl⟩ := Option.map_eq_some_iff.mp hv
  dsimp only
  rw [hq]

/-! ## What toFixed keeps -/

def fixedValue (digits : ℕ) (q : ℚ) : ℚ :=
  let n : ℚ := ⌊|q| * 10 ^ digits + 1 / 2⌋
  (if q < 0 then -n else n) / 10 ^ digits

theorem readAmount_formatMoney {q : ℚ} (hq : |q| < maxFormattable) (digits : ℕ) :
    readAmount (formatMoney (.finite q) digits) = some (fixedValue digits q) := by
  obtain ⟨ip, fp, hfixed, hip, hlen, hfp, hvalue⟩ := toFixed_parts hq digits
  set sign : JSString := if q < 0 then js "-" else [] with hsigned
  set fraction : JSString := if digits = 0 then [] else js "." ++ fp with hfraction
  have hminus : js "-" ≠ [] := by decide
  have hsign : sign = [] ∨ sign = js "-" := by
    rw [hsigned]
    split_ifs
    · exact .inr rfl
    · exact .inl rfl
  have hpoint : fraction = [] ∨ ∃ ds, fraction = js "." ++ ds ∧ ∀ u ∈ ds, isDigit u = true := by
    rw [hfraction]
    split_ifs
    · exact .inl rfl
    · exact .inr ⟨fp, rfl, hfp⟩
  have hsignless : 44 ∉ sign := by
    rcases hsign with h | h <;> rw [h] <;> decide
  have hpointless : 44 ∉ fraction := by
    have hdot : 44 ∉ js "." := by decide
    rcases hpoint with h | ⟨ds, h, hds⟩
    · simp [h]
    · simp [h, hdot, not_mem_of_digits (u := 44) (by decide) hds]
  have hcommas : (formatMoney (.finite q) digits).filter (· ≠ 44) = sign ++ (ip ++ fraction) := by
    rw [formatMoney_eq, hfixed, insertCommas_fixed hsign hip hpoint, List.filter_append, List.filter_append,
      filter_grouped hip.2, filter_of_no_comma hsignless, filter_of_no_comma hpointless]
  have hunsigned : Number.unsignedDecimal (ip ++ fraction) =
      some ((⌊|q| * 10 ^ digits + 1 / 2⌋ : ℚ) / 10 ^ digits) := by
    have hfloor : 0 ≤ ⌊|q| * 10 ^ digits + 1 / 2⌋ := Int.floor_nonneg.mpr (by positivity)
    have hcast : (digitsValue (ip ++ fp) : ℚ) = ⌊|q| * 10 ^ digits + 1 / 2⌋ := by
      rw [hvalue]
      exact_mod_cast Int.toNat_of_nonneg hfloor
    rw [← hcast, hfraction]
    split_ifs with hzero
    · obtain rfl := List.length_eq_zero_iff.mp (hlen.trans hzero)
      rw [hzero, List.append_nil, unsignedDecimal_whole hip, pow_zero, div_one]
    · rw [unsignedDecimal_fraction hip hfp, hlen]
  rw [readAmount, hcommas, exactValue_parts hsign hip hunsigned, fixedValue, hsigned]
  split_ifs <;> simp_all [neg_div]

theorem fixedValue_near (digits : ℕ) (q : ℚ) : |fixedValue digits q - q| ≤ 1 / (2 * 10 ^ digits) := by
  have hpos : (0 : ℚ) < 10 ^ digits := by positivity
  have hle := Int.floor_le (|q| * 10 ^ digits + 1 / 2)
  have hlt := Int.lt_floor_add_one (|q| * 10 ^ digits + 1 / 2)
  have hscaled : |fixedValue digits q * 10 ^ digits - q * 10 ^ digits| ≤ 1 / 2 := by
    rw [fixedValue, div_mul_cancel₀ _ hpos.ne', abs_le]
    split_ifs with hneg
    · rw [abs_of_neg hneg] at *
      constructor <;> linarith
    · rw [abs_of_nonneg (not_lt.mp hneg)] at *
      constructor <;> linarith
  rw [← sub_mul, abs_mul, abs_of_pos hpos] at hscaled
  rw [one_div, mul_inv, ← div_eq_mul_inv, le_div_iff₀ hpos]
  linarith

theorem fixedValue_mono (digits : ℕ) {p q : ℚ} (h : p ≤ q) : fixedValue digits p ≤ fixedValue digits q := by
  have hfloor {a b : ℚ} (hab : |a| ≤ |b|) :
      (⌊|a| * 10 ^ digits + 1 / 2⌋ : ℚ) ≤ ⌊|b| * 10 ^ digits + 1 / 2⌋ := by
    exact_mod_cast Int.floor_le_floor (by gcongr)
  have hnonneg (a : ℚ) : (0 : ℚ) ≤ ⌊|a| * 10 ^ digits + 1 / 2⌋ := by
    exact_mod_cast Int.floor_nonneg.mpr (by positivity)
  unfold fixedValue
  dsimp only
  gcongr
  split_ifs with hp hq hq
  · exact neg_le_neg (hfloor (by rw [abs_of_neg hp, abs_of_neg hq]; linarith))
  · linarith [hnonneg p, hnonneg q]
  · exact absurd (h.trans_lt hq) hp
  · exact hfloor (by rw [abs_of_nonneg (not_lt.mp hp), abs_of_nonneg (not_lt.mp hq)]; exact h)

/-- Less than half a unit away from a multiple of the last place, that multiple is displayed. -/
theorem fixedValue_exact {digits : ℕ} {q : ℚ} {z : ℤ}
    (h : |q - z / 10 ^ digits| < 1 / (2 * 10 ^ digits)) : fixedValue digits q = z / 10 ^ digits := by
  have hpos : (0 : ℚ) < 10 ^ digits := by positivity
  obtain ⟨n, hn⟩ : ∃ n : ℤ, fixedValue digits q = n / 10 ^ digits := by
    unfold fixedValue
    dsimp only
    split_ifs
    · exact ⟨-⌊|q| * 10 ^ digits + 1 / 2⌋, by push_cast; rfl⟩
    · exact ⟨_, rfl⟩
  have hclose : |(n : ℚ) / 10 ^ digits - z / 10 ^ digits| < 1 / 10 ^ digits := by
    rw [← hn]
    calc |fixedValue digits q - z / 10 ^ digits|
        ≤ |fixedValue digits q - q| + |q - z / 10 ^ digits| := abs_sub_le _ _ _
      _ < 1 / (2 * 10 ^ digits) + 1 / (2 * 10 ^ digits) := by linarith [fixedValue_near digits q]
      _ = 1 / 10 ^ digits := by field_simp; norm_num
  rw [← sub_div, abs_div, abs_of_pos hpos, div_lt_div_iff_of_pos_right hpos] at hclose
  have hone : |n - z| < 1 := by exact_mod_cast hclose
  rw [hn, sub_eq_zero.mp (Int.abs_lt_one_iff.mp hone)]

/-! ## The displayed amount and the price -/

/-- Half a unit of the last displayed place, and what the double nearest to the price may be off; a price
with no more places than are displayed is displayed as it is. -/
structure Accurate (decimals : ℕ) (price amount : ℚ) : Prop where
  near : |amount - price| ≤ 1 / (2 * 10 ^ decimals) + max (|price| / 2 ^ 53) (1 / 2 ^ 1075)
  exact : ∀ z : ℤ, price = z / 10 ^ decimals → |z| < 2 ^ 52 → amount = price

theorem accurate_fixedValue {decimals : ℕ} (hd : decimals ≤ 2) (price : ℚ) :
    Accurate decimals price (fixedValue decimals (Number.nearest price)) where
  near := (abs_sub_le _ (Number.nearest price) _).trans
    (add_le_add (fixedValue_near _ _) (Number.nearest_error price))
  exact z hz hsmall := by
    have hpos : (0 : ℚ) < 10 ^ decimals := by positivity
    have hz' : |(z : ℚ)| < 2 ^ 52 := by exact_mod_cast hsmall
    rw [hz]
    apply fixedValue_exact
    apply (Number.nearest_error _).trans_lt
    apply max_lt
    · rw [abs_div, abs_of_pos hpos, div_div, div_lt_div_iff₀ (by positivity) (by positivity)]
      linarith [mul_lt_mul_of_pos_right hz' hpos]
    · have hten : (10 : ℚ) ^ decimals ≤ 10 ^ 2 := pow_le_pow_right₀ (by norm_num) hd
      have htwo : (2 : ℚ) ^ 8 ≤ 2 ^ 1075 := pow_le_pow_right₀ one_le_two (by norm_num)
      apply one_div_lt_one_div_of_lt (by positivity)
      calc (2 : ℚ) * 10 ^ decimals ≤ 2 * 10 ^ 2 := by linarith
        _ < 2 ^ 8 := by norm_num
        _ ≤ 2 ^ 1075 := htwo

theorem decimals_le (symbol : JSString) : (display symbol).decimals ≤ 2 := by
  have hknown : ∀ entry ∈ displayRules, entry.2.decimals ≤ 2 := by decide
  rw [display]
  cases hrule : displayRules.lookup symbol with
  | some rule =>
    obtain ⟨front, back, hrules, -⟩ := List.lookup_eq_some_iff.mp hrule
    exact hknown (symbol, rule) (by rw [hrules]; simp)
  | none => exact le_refl 2

/-! ## The line -/

def amountOf (seg : JSString) : Option ℚ := readAmount (seg.reverse.takeWhile (· ≠ 32)).reverse

def amountAt (line : JSString) (i : ℕ) : Option ℚ := (splitText separator line)[i]?.bind amountOf

theorem amountOf_segment {label rest : JSString} (h : 32 ∉ rest) :
    amountOf (label ++ js " " ++ rest) = readAmount rest := by
  have hspace : js " " = [32] := by decide
  have htail : (label ++ js " " ++ rest).reverse.takeWhile (· ≠ 32) = rest.reverse := by
    have hrest : ∀ u ∈ rest.reverse, decide (u ≠ 32) = true := by
      intro u hu
      apply decide_eq_true
      rintro rfl
      exact h (List.mem_reverse.mp hu)
    rw [hspace, List.reverse_append, List.takeWhile_append_of_pos hrest]
    simp
  rw [amountOf, htail, List.reverse_reverse]

theorem readAmount_na : readAmount na = none := by decide

theorem amountOf_segmentOf {q : PriceService.Quote} (ht : Tickers.Canonical q.ticker) :
    (∀ p, q.result = .ok p → Formattable (.str p) → ∃ v, exactValue (trim p) = some v ∧
      amountOf (Scheduler.segmentOf q) =
        some (fixedValue (display q.ticker).decimals (Number.nearest v))) ∧
    ((∀ p, q.result = .ok p → ¬ Formattable (.str p)) → amountOf (Scheduler.segmentOf q) = none) := by
  have hnormal : toUpperCase (trim q.ticker) = q.ticker := ht.normalizeText_eq
  have hna : 32 ∉ na := by decide
  obtain ⟨t, result⟩ := q
  rw [Scheduler.segmentOf, hnormal]
  constructor
  · rintro p rfl hshow
    obtain ⟨hdecimal, x, hx, hlt⟩ := formattable_str.mp hshow
    have hparse : parsePrice (.str p) = .finite x := by
      rw [parsePrice, if_pos ((test_pricePattern _).mpr hdecimal), hx]
    obtain ⟨v, hv⟩ := hdecimal.exactValue
    rw [hdecimal.ofText (trim_trim p) hv] at hx
    obtain rfl := Number.nearest_of_ofRat hx
    have hspace : 32 ∉ formatMoney (.finite (Number.nearest v)) (display t).decimals := by
      intro hu
      cases (formatMoney_isMoney hlt _).units 32 hu
    have hmoney : shown (display t) (field (PriceService.Quote.toValue ⟨t, .ok p⟩) (js "ok"))
        (field (PriceService.Quote.toValue ⟨t, .ok p⟩) (js "price")) =
        formatMoney (.finite (Number.nearest v)) (display t).decimals := shown_money rfl hparse hlt
    exact ⟨v, hv, by rw [hmoney, amountOf_segment hspace, readAmount_formatMoney hlt]⟩
  · intro hnone
    have hshown : ¬ (isTrue (field (PriceService.Quote.toValue ⟨t, result⟩) (js "ok")) = true ∧
        Formattable (field (PriceService.Quote.toValue ⟨t, result⟩) (js "price"))) := by
      rintro ⟨hok, hprice⟩
      cases result with
      | ok p => exact hnone p rfl hprice
      | error reason => cases hok
    rw [shown_na hshown, amountOf_segment hna, readAmount_na]

/-- **The line shows the prices.** Every slot of the daily line reads as an amount next to its price, as
near as the displayed places and a double allow, and as the price itself where it has no more places;
a slot without such a price shows none; and amounts with equally many places stand in the order of
their prices. -/
theorem line_accurate {quotes : List PriceService.Quote} (hne : quotes ≠ [])
    (ht : ∀ q ∈ quotes, Tickers.Canonical q.ticker) :
    ∃ line, summaryLine (quotes.map PriceService.Quote.toValue) = .ok line ∧
      (∀ i q, quotes[i]? = some q →
        (∀ p, q.result = .ok p → Formattable (.str p) → ∃ v a, exactValue (trim p) = some v ∧
          amountAt line i = some a ∧ Accurate (display q.ticker).decimals v a) ∧
        ((∀ p, q.result = .ok p → ¬ Formattable (.str p)) → amountAt line i = none)) ∧
      ∀ i j q q' p p' v v' a a', quotes[i]? = some q → quotes[j]? = some q' →
        q.result = .ok p → q'.result = .ok p' →
        exactValue (trim p) = some v → exactValue (trim p') = some v' →
        (display q.ticker).decimals = (display q'.ticker).decimals → v ≤ v' →
        amountAt line i = some a → amountAt line j = some a' → a ≤ a' := by
  have hline := Scheduler.summaryLine_quotes ht
  rw [if_neg hne] at hline
  have hunits : ∀ seg ∈ quotes.map Scheduler.segmentOf, ∀ u ∈ seg, isSlotUnit u = true := by
    intro seg hseg
    obtain ⟨q, hq, rfl⟩ := List.mem_map.mp hseg
    exact segment_units (PriceService.segment_toValue (ht q hq))
  have hat (i : ℕ) {q : PriceService.Quote} (hq : quotes[i]? = some q) :
      amountAt (List.intercalate separator (quotes.map Scheduler.segmentOf)) i =
        amountOf (Scheduler.segmentOf q) := by
    rw [amountAt, splitText_line (by simpa using hne) hunits, List.getElem?_map, hq]
    rfl
  refine ⟨_, hline, fun i q hq => ?_, ?_⟩
  · obtain ⟨hshown, hnone⟩ := amountOf_segmentOf (ht q (List.mem_of_getElem? hq))
    rw [hat i hq]
    refine ⟨fun p hp hshow => ?_, hnone⟩
    obtain ⟨v, hv, ha⟩ := hshown p hp hshow
    exact ⟨v, _, hv, ha, accurate_fixedValue (decimals_le _) v⟩
  · intro i j q q' p p' v v' a a' hq hq' hp hp' hv hv' hplaces hle ha ha'
    have hvalue {i : ℕ} {q : PriceService.Quote} {p : JSString} {v a : ℚ} (hq : quotes[i]? = some q)
        (hp : q.result = .ok p) (hv : exactValue (trim p) = some v)
        (ha : amountAt (List.intercalate separator (quotes.map Scheduler.segmentOf)) i = some a) :
        a = fixedValue (display q.ticker).decimals (Number.nearest v) := by
      obtain ⟨hshown, hnone⟩ := amountOf_segmentOf (ht q (List.mem_of_getElem? hq))
      rw [hat i hq] at ha
      by_cases hshow : Formattable (.str p)
      · obtain ⟨v', hv', ha'⟩ := hshown p hp hshow
        obtain rfl := Option.some.inj (hv.symm.trans hv')
        exact Option.some.inj (ha.symm.trans ha')
      · have hno : ∀ p, q.result = .ok p → ¬ Formattable (.str p) := by
          intro p' hp'
          cases hp.symm.trans hp'
          exact hshow
        rw [hnone hno] at ha
        cases ha
    rw [hvalue hq hp hv ha, hvalue hq' hp' hv' ha', hplaces]
    exact fixedValue_mono _ (Number.nearest_mono hle)

def sampleQuotes : List PriceService.Quote :=
  [⟨js "SLV", .ok (js "1234.56")⟩, ⟨js "SPY", .ok (js "7500.5")⟩, ⟨js "GLD", .error .noQuote⟩]

theorem line_accurate_sample : ∃ line,
    summaryLine (sampleQuotes.map PriceService.Quote.toValue) = .ok line ∧
      amountAt line 0 = some (123456 / 100) ∧ amountAt line 2 = none := by
  have hcanonical : ∀ q ∈ sampleQuotes, Tickers.Canonical q.ticker := by decide +kernel
  have hshow : Formattable (.str (js "1234.56")) :=
    ⟨Number.nearest (123456 / 100), by decide +kernel, by decide +kernel⟩
  have hvalue : exactValue (trim (js "1234.56")) = some (123456 / 100) := by decide +kernel
  obtain ⟨line, hline, hslots, -⟩ := line_accurate (by decide) hcanonical
  obtain ⟨v, a, hv, ha, haccurate⟩ := (hslots 0 _ rfl).1 _ rfl hshow
  obtain rfl := Option.some.inj (hv.symm.trans hvalue)
  have hsame := haccurate.exact 123456 (by decide +kernel) (by decide)
  refine ⟨line, hline, by rw [ha, hsame], (hslots 2 _ rfl).2 fun p hp => ?_⟩
  cases hp

end Spazito.Formatter
