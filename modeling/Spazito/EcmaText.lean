import Mathlib

set_option autoImplicit false

/-!
# Strings of 16-bit code units

A string is a list of UTF-16 code units, lone surrogates included. The functions below are those
of the standard library that work on such lists: trimming, splitting, decimal and hexadecimal
digits, UTF-8 and percent-encoding.
-/
namespace Ecma

abbrev CodeUnit := UInt16
abbrev JSString := List CodeUnit

/-- The UTF-16 form of one code point. -/
def encodePoint (p : ℕ) : JSString :=
  if p < 0x10000 then [UInt16.ofNat p]
  else [UInt16.ofNat (0xD800 + (p - 0x10000) / 0x400), UInt16.ofNat (0xDC00 + (p - 0x10000) % 0x400)]

/-- A literal of the source. -/
def js (s : String) : JSString := s.toList.flatMap fun c => encodePoint c.toNat

def isHighSurrogate (u : CodeUnit) : Bool := 0xD800 ≤ u && u ≤ 0xDBFF
def isLowSurrogate (u : CodeUnit) : Bool := 0xDC00 ≤ u && u ≤ 0xDFFF
def isDigit (u : CodeUnit) : Bool := 48 ≤ u && u ≤ 57
def isUpper (u : CodeUnit) : Bool := 65 ≤ u && u ≤ 90
def isLower (u : CodeUnit) : Bool := 97 ≤ u && u ≤ 122

def isHexDigit (u : CodeUnit) : Bool :=
  isDigit u || (65 ≤ u && u ≤ 70) || (97 ≤ u && u ≤ 102)

/-- WhiteSpace and LineTerminator together: what `trim` removes and what the class `\s` matches. -/
def isSpace (u : CodeUnit) : Bool :=
  (9 ≤ u && u ≤ 13) || u == 0x20 || u == 0xA0 || u == 0x1680 || (0x2000 ≤ u && u ≤ 0x200A) ||
    u == 0x2028 || u == 0x2029 || u == 0x202F || u == 0x205F || u == 0x3000 || u == 0xFEFF

/-- The code points of a string; a lone surrogate counts as a code point. -/
def codePoints : JSString → List ℕ
  | [] => []
  | [u] => [u.toNat]
  | u :: v :: s =>
    if isHighSurrogate u && isLowSurrogate v then
      (0x10000 + (u.toNat - 0xD800) * 0x400 + (v.toNat - 0xDC00)) :: codePoints s
    else u.toNat :: codePoints (v :: s)

/-! ## Trimming and splitting -/

def trim (s : JSString) : JSString := (s.dropWhile isSpace).rdropWhile isSpace

/-- `s.split(/\s+/)`: maximal runs of white space separate the parts. -/
def splitSpaces : JSString → List JSString
  | [] => [[]]
  | u :: s =>
    if isSpace u then
      if s.head?.any isSpace then splitSpaces s else [] :: splitSpaces s
    else
      match splitSpaces s with
      | w :: ws => (u :: w) :: ws
      | [] => [[u]]

/-- `s.split(sep)` for a separator that is not empty; `skip` units of one are still to be passed
over. -/
def splitFrom (sep : JSString) (skip : ℕ) : JSString → List JSString
  | [] => [[]]
  | u :: s =>
    if 0 < skip then splitFrom sep (skip - 1) s
    else if sep.isPrefixOf (u :: s) then [] :: splitFrom sep (sep.length - 1) s
    else
      match splitFrom sep 0 s with
      | w :: ws => (u :: w) :: ws
      | [] => [[u]]

def splitText (sep s : JSString) : List JSString := splitFrom sep 0 s

def padStart (n : ℕ) (fill : CodeUnit) (s : JSString) : JSString :=
  List.replicate (n - s.length) fill ++ s

/-! ## Digits -/

def digitUnit (d : ℕ) : CodeUnit := UInt16.ofNat (48 + d)

def decimal (n : ℕ) : JSString := (Nat.toDigits 10 n).map fun c => UInt16.ofNat c.toNat

def digitsValue (s : JSString) : ℕ := s.foldl (fun n u => 10 * n + (u.toNat - 48)) 0

def hexUnit (d : ℕ) : CodeUnit := if d < 10 then UInt16.ofNat (48 + d) else UInt16.ofNat (87 + d)

/-- `toString(16)` of a byte, padded to two digits. -/
def hexByte (b : ℕ) : JSString := [hexUnit (b / 16), hexUnit (b % 16)]

def hexValue (u : CodeUnit) : ℕ :=
  if isDigit u then u.toNat - 48 else if 97 ≤ u then u.toNat - 87 else u.toNat - 55

/-! ## Percent-encoding -/

def utf8 (p : ℕ) : List ℕ :=
  if p < 0x80 then [p]
  else if p < 0x800 then [0xC0 + p / 0x40, 0x80 + p % 0x40]
  else if p < 0x10000 then [0xE0 + p / 0x1000, 0x80 + p / 0x40 % 0x40, 0x80 + p % 0x40]
  else [0xF0 + p / 0x40000, 0x80 + p / 0x1000 % 0x40, 0x80 + p / 0x40 % 0x40, 0x80 + p % 0x40]

def isUnreserved (u : CodeUnit) : Bool :=
  isDigit u || isUpper u || isLower u || (js "-_.!~*'()").contains u

def percentByte (b : ℕ) : JSString :=
  js "%" ++ (hexByte b).map fun u => if isLower u then u - 32 else u

/-- `none` is the URIError for a lone surrogate. -/
def encodeURIComponent (s : JSString) : Option JSString :=
  (codePoints s).foldr (fun p rest => rest.bind fun t =>
    if 0xD800 ≤ p ∧ p < 0xE000 then none
    else if p < 0x80 ∧ isUnreserved (UInt16.ofNat p) then some (UInt16.ofNat p :: t)
    else some ((utf8 p).flatMap percentByte ++ t)) (some [])

/-- No lone surrogate. -/
def WellFormed (s : JSString) : Prop := ∀ p ∈ codePoints s, ¬ (0xD800 ≤ p ∧ p < 0xE000)

/-! ## Laws -/

theorem intercalate_cons {α : Type} (sep xs : List α) (rest : List (List α)) :
    sep.intercalate (xs :: rest) = xs ++ rest.flatMap (sep ++ ·) := by
  induction rest generalizing xs with
  | nil => simp
  | cons ys rest ih => rw [List.intercalate_cons_cons, ih, List.flatMap_cons, List.append_assoc,
      List.append_assoc]

theorem mem_intercalate {α : Type} {sep : List α} {xss : List (List α)} {u : α}
    (h : u ∈ sep.intercalate xss) : u ∈ sep ∨ ∃ xs ∈ xss, u ∈ xs := by
  cases xss with
  | nil => simp at h
  | cons xs rest =>
    rw [intercalate_cons, List.mem_append, List.mem_flatMap] at h
    rcases h with h | ⟨ys, hys, h⟩
    · exact .inr ⟨xs, by simp, h⟩
    · rcases List.mem_append.mp h with h | h
      · exact .inl h
      · exact .inr ⟨ys, by simp [hys], h⟩

theorem span_unique {p : CodeUnit → Bool} {s s' t t' : JSString} (h : s ++ t = s' ++ t')
    (hs : ∀ u ∈ s, p u = true) (hs' : ∀ u ∈ s', p u = true) (ht : ∀ u ∈ t.head?, p u = false)
    (ht' : ∀ u ∈ t'.head?, p u = false) : s = s' ∧ t = t' := by
  induction s generalizing s' with
  | nil =>
    cases s' with
    | nil => exact ⟨rfl, h⟩
    | cons x s' =>
      have hx := ht x (by rw [show t = x :: (s' ++ t') from h]; rfl)
      rw [hs' x (by simp)] at hx
      cases hx
  | cons x s ih =>
    cases s' with
    | nil =>
      have hx := ht' x (by rw [← show x :: (s ++ t) = t' from h]; rfl)
      rw [hs x (by simp)] at hx
      cases hx
    | cons x' s' =>
      rw [List.cons_append, List.cons_append, List.cons.injEq] at h
      obtain ⟨hss, htt⟩ := ih h.2 (fun u hu => hs u (by simp [hu])) fun u hu => hs' u (by simp [hu])
      exact ⟨by rw [h.1, hss], htt⟩

theorem splitFrom_skip (sep w s : JSString) : splitFrom sep w.length (w ++ s) = splitFrom sep 0 s := by
  induction w with
  | nil => rfl
  | cons u w ih => simpa [splitFrom] using ih

section Mark
variable {a b : JSString} {mark : CodeUnit}

theorem not_isPrefixOf (ha : mark ∉ a) {w t : JSString} (hw : mark ∉ w) (hne : w ≠ [])
    (ht : t = [] ∨ ∃ t', t = a ++ mark :: t') : (a ++ mark :: b).isPrefixOf (w ++ t) = false := by
  rw [Bool.eq_false_iff, ne_eq, List.isPrefixOf_iff_prefix]
  rintro ⟨z, hz⟩
  rcases ht with rfl | ⟨t', rfl⟩
  · rw [List.append_nil] at hz
    exact hw (by rw [← hz]; simp)
  · have hsplit : a ++ (mark :: (b ++ z)) = (w ++ a) ++ (mark :: t') := by simpa using hz
    have hother : ∀ {v : JSString}, mark ∉ v → ∀ u ∈ v, (u != mark) = true := fun hv u hu => by
      simpa using ne_of_mem_of_not_mem hu hv
    have hwa : mark ∉ w ++ a := by simp [hw, ha]
    obtain ⟨haw, -⟩ := span_unique hsplit (hother ha) (hother hwa) (by simp) (by simp)
    have hlen := congrArg List.length haw
    rw [List.length_append] at hlen
    exact hne (List.length_eq_zero_iff.mp (by omega))

theorem splitFrom_last (ha : mark ∉ a) {w : JSString} (hw : mark ∉ w) :
    splitFrom (a ++ mark :: b) 0 w = [w] := by
  induction w with
  | nil => rfl
  | cons u w ih =>
    have hno := not_isPrefixOf (b := b) ha hw (by simp) (.inl rfl)
    rw [List.append_nil] at hno
    simp [splitFrom, hno, ih (fun h => hw (List.mem_cons_of_mem u h))]

theorem splitFrom_piece (ha : mark ∉ a) {w t : JSString} (hw : mark ∉ w) :
    splitFrom (a ++ mark :: b) 0 (w ++ ((a ++ mark :: b) ++ t)) =
      w :: splitFrom (a ++ mark :: b) 0 t := by
  induction w with
  | nil =>
    obtain ⟨x, rest, hsep⟩ : ∃ x rest, a ++ mark :: b = x :: rest :=
      List.exists_cons_of_ne_nil (by simp)
    have hhere : (x :: rest).isPrefixOf (x :: (rest ++ t)) = true :=
      List.isPrefixOf_iff_prefix.mpr ⟨t, rfl⟩
    rw [hsep, List.nil_append, List.cons_append, splitFrom, if_neg (by simp), if_pos hhere]
    exact congrArg _ (splitFrom_skip (x :: rest) rest t)
  | cons u w ih =>
    have hno := not_isPrefixOf (b := b) ha hw (by simp) (t := (a ++ mark :: b) ++ t)
      (.inr ⟨b ++ t, by simp⟩)
    rw [List.cons_append] at hno
    rw [List.cons_append, splitFrom, if_neg (by simp), if_neg (Bool.eq_false_iff.mp hno),
      ih (fun h => hw (List.mem_cons_of_mem u h))]

/-- Splitting undoes joining where a unit of the separator stands in no piece and only once in the
separator. -/
theorem splitText_intercalate (ha : mark ∉ a) {xss : List JSString} (hne : xss ≠ [])
    (hxss : ∀ xs ∈ xss, mark ∉ xs) :
    splitText (a ++ mark :: b) ((a ++ mark :: b).intercalate xss) = xss := by
  unfold splitText
  induction xss with
  | nil => exact absurd rfl hne
  | cons xs rest ih =>
    obtain ⟨hxs, hrest⟩ := List.forall_mem_cons.mp hxss
    cases rest with
    | nil => simpa using splitFrom_last ha hxs
    | cons ys rest =>
      rw [List.intercalate_cons_cons, List.append_assoc, splitFrom_piece ha hxs,
        ih (by simp) hrest]

example : splitText (js " | ") (js "a | b  | c |d") = [js "a", js "b ", js "c |d"] := by decide

end Mark

def Blank (s : JSString) : Prop := ∀ u ∈ s, isSpace u = true

theorem trim_eq_nil {s : JSString} : trim s = [] ↔ Blank s := by
  constructor
  · intro h u hu
    rw [trim, List.rdropWhile_eq_nil_iff] at h
    by_cases hd : u ∈ s.dropWhile isSpace
    · exact h u hd
    · have hs := List.takeWhile_append_dropWhile (p := isSpace) (l := s)
      rw [← hs, List.mem_append] at hu
      exact List.mem_takeWhile_imp (hu.resolve_right hd)
  · intro h
    have hs : s.dropWhile isSpace = [] := List.dropWhile_eq_nil_iff.mpr h
    rw [trim, hs, List.rdropWhile_nil]

theorem rdropWhile_append_blank (s w : JSString) (hw : Blank w) :
    (s ++ w).rdropWhile isSpace = s.rdropWhile isSpace := by
  induction w using List.reverseRecOn with
  | nil => rw [List.append_nil]
  | append_singleton w u ih =>
    rw [← List.append_assoc, List.rdropWhile_concat_pos _ _ _ (hw u (by simp))]
    exact ih fun v hv => hw v (by simp [hv])

theorem trim_append_blank (s w : JSString) (hw : Blank w) : trim (s ++ w) = trim s := by
  by_cases hs : Blank s
  · rw [trim_eq_nil.mpr hs, trim_eq_nil]
    intro u hu
    exact (List.mem_append.mp hu).elim (hs u) (hw u)
  · have hd : s.dropWhile isSpace ≠ [] := fun h => hs (List.dropWhile_eq_nil_iff.mp h)
    have ha : (s ++ w).dropWhile isSpace = s.dropWhile isSpace ++ w := by
      rw [List.dropWhile_append]; simp [hd]
    rw [trim, ha, rdropWhile_append_blank _ _ hw, trim]

theorem trim_blank_append (w s : JSString) (hw : Blank w) : trim (w ++ s) = trim s := by
  rw [trim, List.dropWhile_append_of_pos hw, trim]

theorem trim_eq_self {s : JSString} (hh : ∀ u ∈ s.head?, isSpace u = false)
    (hl : ∀ u ∈ s.getLast?, isSpace u = false) : trim s = s := by
  have hd : s.dropWhile isSpace = s := by
    cases s with
    | nil => rfl
    | cons u s => simp [hh u rfl]
  rw [trim, hd, List.rdropWhile_eq_self_iff]
  intro hs
  simp [hl _ (List.getLast?_eq_some_getLast hs)]

theorem trim_head {s : JSString} : ∀ u ∈ (trim s).head?, isSpace u = false := by
  intro u hu
  obtain ⟨t, ht⟩ := List.rdropWhile_prefix isSpace (l := s.dropWhile isSpace)
  have hd : (s.dropWhile isSpace).head? = some u := by
    rw [← ht, List.head?_append_of_ne_nil _ (by rintro h; simp [trim, h] at hu)]
    exact hu
  have := List.head?_dropWhile_not isSpace s
  simpa [hd] using this

theorem trim_getLast {s : JSString} : ∀ u ∈ (trim s).getLast?, isSpace u = false := by
  intro u hu
  have hne : trim s ≠ [] := by rintro h; simp [h] at hu
  have h := List.rdropWhile_last_not isSpace (s.dropWhile isSpace) hne
  rw [List.getLast?_eq_some_getLast hne, Option.mem_some_iff] at hu
  rw [← hu]
  exact Bool.eq_false_of_not_eq_true h

theorem trim_intercalate {sep : JSString} {xss : List JSString}
    (h : ∀ xs ∈ xss, xs ≠ [] ∧ trim xs = xs) : trim (sep.intercalate xss) = sep.intercalate xss := by
  induction xss with
  | nil => rfl
  | cons xs rest ih =>
    obtain ⟨⟨hne, htrim⟩, hrest⟩ := List.forall_mem_cons.mp h
    have hhead : ∀ u ∈ xs.head?, isSpace u = false := by
      rw [← htrim]
      exact trim_head
    cases rest with
    | nil => simpa using htrim
    | cons ys rest =>
      have hnext := ih hrest
      have hfull : sep.intercalate (ys :: rest) ≠ [] := by
        rw [intercalate_cons]
        simp [(hrest ys (by simp)).1]
      rw [List.intercalate_cons_cons]
      refine trim_eq_self (fun u hu => hhead u ?_) fun u hu => ?_
      · rwa [List.append_assoc, List.head?_append_of_ne_nil _ hne] at hu
      · rw [List.getLast?_append_of_ne_nil _ hfull] at hu
        rw [← hnext] at hu
        exact trim_getLast u hu

theorem trim_trim (s : JSString) : trim (trim s) = trim s := trim_eq_self trim_head trim_getLast

/-! Decimal digits: the last digit is the remainder, and reading them back gives the number. -/

theorem decimal_eq_if (n : ℕ) :
    decimal n = if n < 10 then [digitUnit n] else decimal (n / 10) ++ [digitUnit (n % 10)] := by
  have hd : ∀ d, d < 10 → UInt16.ofNat (Nat.digitChar d).toNat = digitUnit d := by decide
  rw [decimal, Nat.toDigits_eq_if (by decide)]
  split_ifs with h
  · simp [hd n h]
  · simp [decimal, hd _ (Nat.mod_lt n (by decide : 0 < 10))]

theorem isDigit_digitUnit : ∀ d, d < 10 → isDigit (digitUnit d) = true := by decide
theorem digitUnit_value : ∀ d, d < 10 → (digitUnit d).toNat - 48 = d := by decide

theorem decimal_isDigit (n : ℕ) : ∀ u ∈ decimal n, isDigit u = true := by
  induction n using Nat.strongRecOn with
  | ind n ih =>
    intro u hu
    rw [decimal_eq_if] at hu
    split_ifs at hu with h
    · rw [List.mem_singleton.mp hu]; exact isDigit_digitUnit n h
    · rcases List.mem_append.mp hu with hu | hu
      · exact ih (n / 10) (by omega) u hu
      · rw [List.mem_singleton.mp hu]; exact isDigit_digitUnit _ (by omega)

theorem decimal_ne_nil (n : ℕ) : decimal n ≠ [] := by
  rw [decimal_eq_if]
  split_ifs <;> simp

theorem digitsValue_concat (s : JSString) (u : CodeUnit) :
    digitsValue (s ++ [u]) = 10 * digitsValue s + (u.toNat - 48) := by
  simp [digitsValue]

theorem digitsValue_decimal (n : ℕ) : digitsValue (decimal n) = n := by
  induction n using Nat.strongRecOn with
  | ind n ih =>
    rw [decimal_eq_if]
    split_ifs with h
    · simpa [digitsValue] using digitUnit_value n h
    · rw [digitsValue_concat, ih (n / 10) (by omega), digitUnit_value _ (by omega)]
      omega

theorem decimal_injective : Function.Injective decimal := by
  intro m n h
  rw [← digitsValue_decimal m, h, digitsValue_decimal]

theorem decimal_head (n : ℕ) (hn : 0 < n) : (decimal n).head? ≠ some 48 := by
  induction n using Nat.strongRecOn with
  | ind n ih =>
    rw [decimal_eq_if]
    split_ifs with h
    · have hd : ∀ d, d < 10 → 0 < d → digitUnit d ≠ 48 := by decide
      simpa using hd n h hn
    · rw [List.head?_append_of_ne_nil _ (decimal_ne_nil _)]
      exact ih (n / 10) (by omega) (by omega)

end Ecma
