import Spazito.EcmaText

set_option autoImplicit false

/-!
# Numbers

A Number is a double. Its two zeros are one value here: none of the operations below tells them
apart in what it prints or compares.
-/
namespace Ecma

inductive Number
  | nan
  | infinity (negative : Bool)
  | finite (q : ℚ)
  deriving DecidableEq

namespace Number

/-- The exponent of the power of two at or below `|q|`. -/
def log2 (q : ℚ) : ℤ :=
  let l : ℤ := (q.num.natAbs.log2 : ℤ) - (q.den.log2 : ℤ)
  if |q| < 2 ^ l then l - 1 else l

def roundHalfEven (q : ℚ) : ℤ :=
  let n := ⌊q⌋
  if q - n < 1 / 2 then n
  else if 1 / 2 < q - n then n + 1
  else if n % 2 = 0 then n else n + 1

/-- The double nearest to `q`, ties to even: 53 bits, least exponent -1074. -/
def ofRat (q : ℚ) : Number :=
  let e := max (log2 q - 52) (-1074)
  let r : ℚ := roundHalfEven (q / 2 ^ e) * 2 ^ e
  if 2 ^ 1024 ≤ |r| then infinity (decide (q < 0)) else finite r

def ofNat (n : ℕ) : Number := ofRat n

def isFinite : Number → Bool
  | finite _ => true
  | _ => false

def neg : Number → Number
  | nan => nan
  | infinity b => infinity !b
  | finite q => finite (-q)

def add : Number → Number → Number
  | nan, _ | _, nan => nan
  | infinity a, infinity b => if a = b then infinity a else nan
  | infinity a, _ | _, infinity a => infinity a
  | finite p, finite q => ofRat (p + q)

def sub (x y : Number) : Number := add x (neg y)

def lt : Number → Number → Bool
  | nan, _ | _, nan => false
  | infinity a, infinity b => a && !b
  | infinity a, finite _ => a
  | finite _, infinity b => !b
  | finite p, finite q => p < q

def le : Number → Number → Bool
  | nan, _ | _, nan => false
  | x, y => !lt y x

/-- `x === y` -/
def same : Number → Number → Bool
  | nan, _ => false
  | x, y => decide (x = y)

/-- A number is false as a condition when it is zero or not a number. -/
def truthy : Number → Bool
  | nan => false
  | finite q => q ≠ 0
  | infinity _ => true

/-! ## Printing -/

def integerText (z : ℤ) : JSString :=
  if z < 0 then js "-" ++ decimal z.natAbs else decimal z.natAbs

def log10 (q : ℚ) : ℤ :=
  if 1 ≤ q then ((decimal ⌊q⌋.toNat).length : ℤ) - 1
  else -((decimal (⌈1 / q⌉.toNat - 1)).length : ℤ)

/-- The digits `s` and the exponent `n` with `k` digits that name the double `q`, nearest first. -/
def candidate (q : ℚ) (k : ℕ) : Option (ℕ × ℤ) :=
  let p := log10 q
  let scale : ℚ := 10 ^ (p - k + 1)
  let s := ⌊q / scale⌋.toNat
  let near : List ℕ := if q - s * scale ≤ (s + 1) * scale - q then [s, s + 1] else [s + 1, s]
  (near.find? fun m : ℕ => decide (ofRat ((m : ℚ) * scale) = finite q)).map fun m =>
    if m = 10 ^ k then (10 ^ (k - 1), p + 2) else (m, p + 1)

/-- Number::toString of a positive double from its shortest digits. -/
def shortestText (q : ℚ) : JSString :=
  match (List.range 17).findSome? fun i => (candidate q (i + 1)).map fun c => (i + 1, c) with
  | none => []
  | some (k, s, n) =>
    let ds := decimal s
    if (k : ℤ) ≤ n ∧ n ≤ 21 then ds ++ List.replicate (n.toNat - k) 48
    else if 0 < n ∧ n ≤ 21 then ds.take n.toNat ++ js "." ++ ds.drop n.toNat
    else if -6 < n ∧ n ≤ 0 then js "0." ++ List.replicate (-n).toNat 48 ++ ds
    else
      let mantissa := if k = 1 then ds else ds.take 1 ++ js "." ++ ds.drop 1
      mantissa ++ js "e" ++ (if n - 1 < 0 then js "-" else js "+") ++ decimal (n - 1).natAbs

/-- `String(x)`. An integer up to `2 ^ 53` prints all its digits: its neighbours are doubles too. -/
def toText : Number → JSString
  | nan => js "NaN"
  | infinity b => if b then js "-Infinity" else js "Infinity"
  | finite q =>
    if q.den = 1 ∧ q.num.natAbs ≤ 2 ^ 53 then integerText q.num
    else if q < 0 then js "-" ++ shortestText (-q) else shortestText q

/-- `x.toFixed(digits)`: of two equally near results the larger magnitude is taken. -/
def toFixed (digits : ℕ) : Number → JSString
  | finite q =>
    if |q| < 10 ^ 21 then
      let n := ⌊|q| * 10 ^ digits + 1 / 2⌋.toNat
      let m := padStart (digits + 1) 48 (decimal n)
      let body := if digits = 0 then m
        else m.take (m.length - digits) ++ js "." ++ m.drop (m.length - digits)
      if q < 0 then js "-" ++ body else body
    else toText (finite q)
  | x => toText x

/-! ## Reading -/

def splitSign (s : JSString) : Bool × JSString :=
  match s with
  | u :: t => if u = 45 then (true, t) else if u = 43 then (false, t) else (false, s)
  | [] => (false, [])

/-- `parseInt(s, 10)`. -/
def parseInt (s : JSString) : Number :=
  let (negative, t) := splitSign (s.dropWhile isSpace)
  let ds := t.takeWhile isDigit
  if ds = [] then nan
  else ofRat (if negative then -(digitsValue ds : ℚ) else digitsValue ds)

/-- The exponent part at the end of a decimal literal; no part at all is exponent zero. -/
def exponentPart : JSString → Option ℤ
  | [] => some 0
  | u :: t =>
    if u = 101 ∨ u = 69 then
      let (negative, ds) := splitSign t
      if ds ≠ [] ∧ ds.all isDigit then
        some (if negative then -(digitsValue ds : ℤ) else digitsValue ds)
      else none
    else none

/-- An unsigned decimal literal: digits, a fraction, an exponent, at least one digit in all. -/
def unsignedDecimal (s : JSString) : Option ℚ :=
  let ip := s.takeWhile isDigit
  let r := s.dropWhile isDigit
  let (fp, r) := if r.head? = some 46 then (r.tail.takeWhile isDigit, r.tail.dropWhile isDigit)
    else ([], r)
  if ip = [] ∧ fp = [] then none
  else (exponentPart r).map fun e => (digitsValue (ip ++ fp) : ℚ) * 10 ^ (e - (fp.length : ℤ))

def radixValue (radix : ℕ) (ds : JSString) : ℕ :=
  ds.foldl (fun n u => radix * n + hexValue u) 0

def radixLiteral (radix : ℕ) (ds : JSString) : Number :=
  if ds ≠ [] ∧ ds.all (fun u => isHexDigit u && hexValue u < radix) then ofNat (radixValue radix ds)
  else nan

/-- `Number(s)` of a string. -/
def ofText (s : JSString) : Number :=
  let t := trim s
  if t = [] then finite 0
  else if t.take 2 = js "0x" ∨ t.take 2 = js "0X" then radixLiteral 16 (t.drop 2)
  else if t.take 2 = js "0o" ∨ t.take 2 = js "0O" then radixLiteral 8 (t.drop 2)
  else if t.take 2 = js "0b" ∨ t.take 2 = js "0B" then radixLiteral 2 (t.drop 2)
  else
    let (negative, u) := splitSign t
    if u = js "Infinity" then infinity negative
    else match unsignedDecimal u with
      | some q => ofRat (if negative then -q else q)
      | none => nan

example : toText (ofRat (10 ^ 23)) = js "1e+23" := by decide +kernel
example : toText (ofText (js "623.62")) = js "623.62" := by decide +kernel
example : toFixed 2 (ofText (js "1.005")) = js "1.00" := by decide +kernel

/-! ## Integers up to 2 ^ 53 -/

theorem roundHalfEven_intCast (z : ℤ) : roundHalfEven z = z := by
  simp [roundHalfEven]

theorem log2_intCast_le (z : ℤ) (h : z.natAbs ≤ 2 ^ 53) : log2 z ≤ 53 := by
  have hl : z.natAbs.log2 ≤ 53 := by
    by_cases hz : z.natAbs = 0
    · simp [hz]
    · exact (Nat.log2_lt hz).mpr (by omega) |> Nat.le_of_lt_succ
  simp only [log2, Rat.num_intCast, Rat.den_intCast]
  have h1 : Nat.log2 1 = 0 := by decide
  split_ifs <;> omega

theorem natAbs_of_log2_eq (z : ℤ) (h : z.natAbs ≤ 2 ^ 53) (hl : log2 z = 53) :
    z.natAbs = 2 ^ 53 := by
  have hle : z.natAbs.log2 ≤ 53 := by
    by_cases hz : z.natAbs = 0
    · simp [hz]
    · exact Nat.le_of_lt_succ ((Nat.log2_lt hz).mpr (by omega))
  have h1 : Nat.log2 1 = 0 := by decide
  simp only [log2, Rat.num_intCast, Rat.den_intCast, h1] at hl
  split_ifs at hl with hlt
  · omega
  · have he : (z.natAbs.log2 : ℤ) - ((0 : ℕ) : ℤ) = 53 := hl
    rw [he, not_lt] at hlt
    have hq : ((2 ^ 53 : ℕ) : ℚ) ≤ (z.natAbs : ℚ) := by
      rw [Nat.cast_natAbs, Int.cast_abs]
      exact_mod_cast hlt
    exact le_antisymm h (by exact_mod_cast hq)

theorem units_intCast (z : ℤ) (h : z.natAbs ≤ 2 ^ 53) :
    ∃ m : ℤ, (z : ℚ) / 2 ^ max (log2 z - 52) (-1074) = m := by
  have he : max (log2 z - 52) (-1074) ≤ 1 := by
    have := log2_intCast_le z h
    omega
  by_cases hpos : max (log2 z - 52) (-1074) ≤ 0
  · obtain ⟨k, hk⟩ := Int.exists_eq_neg_ofNat hpos
    refine ⟨z * 2 ^ k, ?_⟩
    rw [hk, zpow_neg, zpow_natCast]
    push_cast
    field_simp
  · have hone : max (log2 z - 52) (-1074) = 1 := by omega
    have hz := natAbs_of_log2_eq z h (by omega)
    rw [hone, zpow_one]
    rcases Int.natAbs_eq z with hs | hs
    · exact ⟨2 ^ 52, by rw [hs, hz]; norm_num⟩
    · exact ⟨-2 ^ 52, by rw [hs, hz]; norm_num⟩

theorem ofRat_intCast (z : ℤ) (h : z.natAbs ≤ 2 ^ 53) : ofRat z = finite z := by
  obtain ⟨m, hm⟩ := units_intCast z h
  have hr : (roundHalfEven ((z : ℚ) / 2 ^ max (log2 z - 52) (-1074)) : ℚ) *
      2 ^ max (log2 z - 52) (-1074) = z := by
    rw [hm, roundHalfEven_intCast, ← hm]
    exact div_mul_cancel₀ _ (zpow_ne_zero _ two_ne_zero)
  have hsmall : |(z : ℚ)| < 2 ^ 1024 := by
    have hz : |(z : ℚ)| ≤ 2 ^ 53 := by
      rw [← Int.cast_abs, ← Nat.cast_natAbs]
      exact_mod_cast h
    exact hz.trans_lt (pow_lt_pow_right₀ one_lt_two (by norm_num))
  simp only [ofRat, hr]
  rw [if_neg (not_le.mpr hsmall)]

theorem ofRat_natCast (n : ℕ) (h : n ≤ 2 ^ 53) : ofRat n = finite n :=
  ofRat_intCast n h

theorem add_natCast (m n : ℕ) (h : m + n ≤ 2 ^ 53) :
    add (finite m) (finite n) = finite (m + n : ℕ) := by
  simpa [add] using ofRat_natCast (m + n) h

theorem sub_natCast (m n : ℕ) (hm : m ≤ 2 ^ 53) (hn : n ≤ 2 ^ 53) :
    sub (finite m) (finite n) = finite ((m : ℤ) - n : ℤ) := by
  have h := ofRat_intCast ((m : ℤ) - n) (by omega)
  push_cast at h ⊢
  rw [sub, neg, add, ← sub_eq_add_neg]
  exact h

theorem sub_natCast_of_le {m n : ℕ} (hn : n ≤ m) (hm : m ≤ 2 ^ 53) :
    sub (finite m) (finite n) = finite (m - n : ℕ) := by
  rw [sub_natCast m n hm (hn.trans hm), ← Nat.cast_sub hn, Int.cast_natCast]

theorem toText_natCast (n : ℕ) (h : n ≤ 2 ^ 53) : toText (finite n) = decimal n := by
  have hn : ¬ ((n : ℤ) < 0) := by omega
  simp only [toText, Rat.den_natCast, Rat.num_natCast, Int.natAbs_natCast, h, and_self, ↓reduceIte,
    integerText, hn]

theorem splitSign_digits (s : JSString) (h : ∀ u ∈ s, isDigit u = true) : splitSign s = (false, s) := by
  cases s with
  | nil => rfl
  | cons u s =>
    have hu := h u (by simp)
    have h1 : u ≠ 45 := by rintro rfl; exact absurd hu (by decide)
    have h2 : u ≠ 43 := by rintro rfl; exact absurd hu (by decide)
    simp [splitSign, h1, h2]

theorem isSpace_of_isDigit {u : CodeUnit} (h : isDigit u = true) : isSpace u = false := by
  simp [isDigit, isSpace, UInt16.le_iff_toNat_le, ← UInt16.toNat_inj] at h ⊢
  omega

theorem dropWhile_space_digits (s : JSString) (h : ∀ u ∈ s, isDigit u = true) :
    s.dropWhile isSpace = s := by
  cases s with
  | nil => rfl
  | cons u s => simp [isSpace_of_isDigit (h u (by simp))]

theorem parseInt_digits (s : JSString) (hs : s ≠ []) (h : ∀ u ∈ s, isDigit u = true) :
    parseInt s = ofNat (digitsValue s) := by
  rw [parseInt, dropWhile_space_digits s h, splitSign_digits s h]
  simp [List.takeWhile_eq_self_iff.mpr h, hs, ofNat]

theorem parseInt_decimal (n : ℕ) (h : n ≤ 2 ^ 53) : parseInt (decimal n) = finite n := by
  rw [parseInt_digits _ (decimal_ne_nil n) (decimal_isDigit n), digitsValue_decimal, ofNat,
    ofRat_natCast n h]

end Number

/-! ## Dates -/

/-- A reading of the clock: milliseconds since 1970, up to the last date there is. -/
abbrev Time := {ms : ℕ // ms ≤ 8640000000000000}

/-- Year, month and day of a count of days since 1970, in the years of 400-year eras that begin in
March. -/
def civilDate (days : ℕ) : ℕ × ℕ × ℕ :=
  let z := days + 719468
  let e := z % 146097
  let y := (e - e / 1460 + e / 36524 - e / 146096) / 365
  let d := e - (365 * y + y / 4 - y / 100)
  let m := (5 * d + 2) / 153
  let month := if m < 10 then m + 3 else m - 9
  (y + z / 146097 * 400 + (if month ≤ 2 then 1 else 0), month, d - (153 * m + 2) / 5 + 1)

/-- `new Date(t).toISOString()`. -/
def isoString (t : Time) : JSString :=
  let (y, m, d) := civilDate (t.val / 86400000)
  let ms := t.val % 86400000
  let two (n : ℕ) := padStart 2 48 (decimal n)
  (if y ≤ 9999 then padStart 4 48 (decimal y) else js "+" ++ padStart 6 48 (decimal y)) ++
    js "-" ++ two m ++ js "-" ++ two d ++ js "T" ++ two (ms / 3600000) ++ js ":" ++
    two (ms / 60000 % 60) ++ js ":" ++ two (ms / 1000 % 60) ++ js "." ++
    padStart 3 48 (decimal (ms % 1000)) ++ js "Z"

example : isoString ⟨1709210096789, by decide⟩ = js "2024-02-29T12:34:56.789Z" := by decide +kernel

end Ecma
