import Spazito.EcmaJson

set_option autoImplicit false

/-!
# JSON read back

`JSON.parse` undoes `JSON.stringify` on every value that the text format can hold.
-/
namespace Ecma.Value

theorem hexValue_hexUnit : ∀ d, d < 16 → hexValue (hexUnit d) = d := by decide
theorem isHexDigit_hexUnit : ∀ d, d < 16 → isHexDigit (hexUnit d) = true := by decide

theorem stringBody_hex4 (u : CodeUnit) (t : JSString) :
    stringBody (92 :: 117 :: hex4 u.toNat ++ t) = (stringBody t).map fun p => (u :: p.1, p.2) := by
  have h : ∀ n, hexValue (hexUnit (n % 16)) = n % 16 :=
    fun n => hexValue_hexUnit _ (Nat.mod_lt n (by decide))
  have hd : ∀ n, isHexDigit (hexUnit (n % 16)) = true :=
    fun n => isHexDigit_hexUnit _ (Nat.mod_lt n (by decide))
  have hu : UInt16.ofNat (4096 * (u.toNat / 4096 % 16) + 256 * (u.toNat / 256 % 16) +
      16 * (u.toNat / 16 % 16) + u.toNat % 16) = u := by
    have hlt : u.toNat < 65536 := u.toNat_lt
    rw [show 4096 * (u.toNat / 4096 % 16) + 256 * (u.toNat / 256 % 16) +
      16 * (u.toNat / 16 % 16) + u.toNat % 16 = u.toNat by omega]
    exact UInt16.ofNat_toNat
  rw [hex4, List.cons_append, List.cons_append, stringBody.eq_def]
  simp [h, hd, hu]

theorem stringBody_plain (u : CodeUnit) (t : JSString) (h1 : u ≠ 34) (h2 : u ≠ 92) (h3 : ¬ u < 32) :
    stringBody (u :: t) = (stringBody t).map fun p => (u :: p.1, p.2) := by
  rw [stringBody.eq_def]
  simp only [h1, h2, h3, if_false]

theorem stringBody_escapeUnit (u : CodeUnit) (t : JSString) :
    stringBody (escapeUnit u ++ t) = (stringBody t).map fun p => (u :: p.1, p.2) := by
  by_cases h : ∃ e, (u, e) ∈ shortEscapes
  · obtain ⟨e, he⟩ := h
    simp only [shortEscapes, List.mem_cons, Prod.mk.injEq, List.not_mem_nil, or_false] at he
    rcases he with ⟨rfl, rfl⟩ | ⟨rfl, rfl⟩ | ⟨rfl, rfl⟩ | ⟨rfl, rfl⟩ | ⟨rfl, rfl⟩ | ⟨rfl, rfl⟩ |
      ⟨rfl, rfl⟩ <;> exact stringBody.eq_def _
  · have hl : shortEscapes.lookup u = none := by
      rw [List.lookup_eq_none_iff]
      intro p hp
      rw [bne_iff_ne]
      rintro rfl
      exact h ⟨p.2, hp⟩
    rw [escapeUnit, hl]
    dsimp only
    split_ifs with hc
    · exact stringBody_hex4 u t
    · refine stringBody_plain u t ?_ ?_ ?_
      · rintro rfl; exact h ⟨34, by decide⟩
      · rintro rfl; exact h ⟨92, by decide⟩
      · simp at hc; simpa using hc.1.1

theorem stringBody_close (r : JSString) : stringBody (34 :: r) = some ([], r) :=
  stringBody.eq_def _

theorem stringBody_quoteBody (s r : JSString) : stringBody (quoteBody s ++ 34 :: r) = some (s, r) := by
  induction s using quoteBody.induct with
  | case1 => exact stringBody_close r
  | case2 u => simp [quoteBody, stringBody_escapeUnit, stringBody_close]
  | case3 u v s h ih =>
    have hplain : ∀ w : CodeUnit, 0xD800 ≤ w → w ≠ 34 ∧ w ≠ 92 ∧ ¬ w < 32 := by
      intro w hw
      simp only [UInt16.le_iff_toNat_le, UInt16.lt_iff_toNat_lt, ne_eq, ← UInt16.toNat_inj] at hw ⊢
      simp at hw ⊢
      omega
    simp only [Bool.and_eq_true, isHighSurrogate, isLowSurrogate, decide_eq_true_eq] at h
    obtain ⟨h1, h2, h3⟩ := hplain u h.1.1
    obtain ⟨g1, g2, g3⟩ := hplain v (UInt16.le_trans (by decide : (0xD800 : CodeUnit) ≤ 0xDC00) h.2.1)
    rw [quoteBody, if_pos (by simp [isHighSurrogate, isLowSurrogate, h]), List.cons_append,
      List.cons_append, stringBody_plain u _ h1 h2 h3, stringBody_plain v _ g1 g2 g3, ih]
    rfl
  | case4 u v s h ih =>
    rw [quoteBody, if_neg h, List.append_assoc, stringBody_escapeUnit, ih]
    rfl
/-! ## Values that read back -/

/-- What may follow a number in JSON text. -/
def EndsNumber (r : JSString) : Prop :=
  ∀ u ∈ r.head?, isDigit u = false ∧ u ≠ 46 ∧ u ≠ 101 ∧ u ≠ 69

theorem endsNumber_nil : EndsNumber [] := by simp [EndsNumber]

theorem endsNumber_comma (r : JSString) : EndsNumber (44 :: r) := by
  simp [EndsNumber, isDigit]

theorem endsNumber_close (r : JSString) : EndsNumber (93 :: r) ∧ EndsNumber (125 :: r) := by
  simp [EndsNumber, isDigit]

theorem span_digits (ds r : JSString) (hd : ∀ u ∈ ds, isDigit u = true) (hr : EndsNumber r) :
    (ds ++ r).takeWhile isDigit = ds ∧ (ds ++ r).dropWhile isDigit = r := by
  have ht : r.takeWhile isDigit = [] ∧ r.dropWhile isDigit = r := by
    cases r with
    | nil => simp
    | cons u r => simp [(hr u rfl).1]
  rw [List.takeWhile_append_of_pos hd, List.dropWhile_append_of_pos hd, ht.1, ht.2]
  simp

theorem numberToken_decimal (n : ℕ) (r : JSString) (hn : n ≤ 2 ^ 53) (hr : EndsNumber r) :
    numberToken (decimal n ++ r) = some (.finite n, r) := by
  obtain ⟨ht, hd⟩ := span_digits (decimal n) r (decimal_isDigit n) hr
  have hminus : (decimal n ++ r).head? ≠ some 45 := by
    rw [List.head?_append_of_ne_nil _ (decimal_ne_nil n)]
    intro h
    exact absurd (decimal_isDigit n 45 (List.mem_of_mem_head? h)) (by decide)
  have hzero : ¬ (decimal n = [] ∨ (1 < (decimal n).length ∧ (decimal n).head? = some 48)) := by
    rintro (h | ⟨hl, h⟩)
    · exact decimal_ne_nil n h
    · rcases Nat.eq_zero_or_pos n with rfl | hpos
      · exact absurd hl (by decide)
      · exact decimal_head n hpos h
  have hf : fractionPart r = some ([], r) := by
    rw [fractionPart, if_neg]
    intro h
    exact (hr 46 h).2.1 rfl
  have he : exponentToken r = some (0, r) := by
    rw [exponentToken, if_neg]
    rintro (h | h)
    · exact (hr 101 h).2.2.1 rfl
    · exact (hr 69 h).2.2.2 rfl
  simp only [numberToken, hminus, if_false, ht, hd, hzero, hf, he, Option.bind_eq_bind,
    Option.bind_some, List.append_nil, digitsValue_decimal]
  simp [Number.ofRat_natCast n hn]

mutual
/-- Values that `stringify` prints without loss: no `undefined`, numbers that are counts or times,
members in the order they are parsed back. -/
def Storable : Value → Prop
  | undefined => False
  | null | bool _ | str _ => True
  | num x => ∃ n : ℕ, n ≤ 2 ^ 53 ∧ x = .finite n
  | arr xs => StorableElements xs
  | obj ps => StorableMembers ps ∧ ofMembers ps = obj ps

def StorableElements : List Value → Prop
  | [] => True
  | x :: xs => Storable x ∧ StorableElements xs

def StorableMembers : List (JSString × Value) → Prop
  | [] => True
  | (_, x) :: ps => Storable x ∧ StorableMembers ps
end

theorem skipSpace_of_ne {u : CodeUnit} {s : JSString} (h : u ≠ 9 ∧ u ≠ 10 ∧ u ≠ 13 ∧ u ≠ 32) :
    skipSpace (u :: s) = u :: s := by
  simp [skipSpace, h]

theorem stringify_head (v : Value) (h : Storable v) :
    ∃ u s, stringify v = u :: s ∧ u ≠ 9 ∧ u ≠ 10 ∧ u ≠ 13 ∧ u ≠ 32 ∧ u ≠ 93 ∧ u ≠ 125 := by
  cases v with
  | undefined => exact h.elim
  | null => exact ⟨_, _, rfl, by decide⟩
  | bool b => cases b <;> exact ⟨_, _, rfl, by decide⟩
  | str s => exact ⟨34, _, rfl, by decide⟩
  | arr xs => exact ⟨91, _, rfl, by decide⟩
  | obj ps => exact ⟨123, _, rfl, by decide⟩
  | num x =>
    obtain ⟨n, hn, rfl⟩ := h
    obtain ⟨u, s, hs⟩ := List.exists_cons_of_ne_nil (decimal_ne_nil n)
    refine ⟨u, s, ?_, ?_⟩
    · simp only [stringify, Number.isFinite, if_true, Number.toText_natCast n hn, hs]
    · have hu := decimal_isDigit n u (by rw [hs]; simp)
      refine ⟨?_, ?_, ?_, ?_, ?_, ?_⟩ <;> (rintro rfl; exact absurd hu (by decide))

theorem stringify_length_pos (v : Value) (h : Storable v) : 0 < (stringify v).length := by
  obtain ⟨u, s, hs, _⟩ := stringify_head v h
  simp [hs]

theorem quote_append (s r : JSString) : quote s ++ r = 34 :: (quoteBody s ++ 34 :: r) := by
  simp [quote]

theorem parseElements_one (x : Value) (n : ℕ) (s r : JSString) (u : CodeUnit)
    (hx : parseValue n s = some (x, u :: r)) (hu : u = 44 ∨ u = 93) :
    parseElements (n + 1) s =
      if u = 44 then (parseElements n r).map fun p => (x :: p.1, p.2) else some ([x], r) := by
  rcases hu with rfl | rfl <;> simp [parseElements, hx, skipSpace]

theorem parseMembers_one (k : JSString) (x : Value) (n : ℕ) (s r : JSString) (u : CodeUnit)
    (hx : parseValue n s = some (x, u :: r)) (hu : u = 44 ∨ u = 125) :
    parseMembers (n + 1) (quote k ++ 58 :: s) =
      if u = 44 then (parseMembers n r).map fun p => ((k, x) :: p.1, p.2)
      else some ([(k, x)], r) := by
  rw [quote_append, parseMembers, skipSpace_of_ne (by decide)]
  rcases hu with rfl | rfl <;> simp [stringBody_quoteBody, hx, skipSpace]

mutual
theorem parseValue_stringify : ∀ (v : Value) (n : ℕ) (r : JSString), Storable v → EndsNumber r →
    2 * (stringify v).length ≤ n → parseValue n (stringify v ++ r) = some (v, r)
  | v, 0, _, hv, _, hn => by
    have := stringify_length_pos v hv
    omega
  | .undefined, _ + 1, _, hv, _, _ => hv.elim
  | .null, n + 1, r, _, _, _ => by
    simp [stringify, parseValue, js, encodePoint, skipSpace]
  | .bool true, n + 1, r, _, _, _ => by
    simp [stringify, parseValue, js, encodePoint, skipSpace]
  | .bool false, n + 1, r, _, _, _ => by
    simp [stringify, parseValue, js, encodePoint, skipSpace]
  | .num x, n + 1, r, hv, hr, _ => by
    obtain ⟨m, hm, rfl⟩ := hv
    obtain ⟨u, s, hs⟩ := List.exists_cons_of_ne_nil (decimal_ne_nil m)
    have hu := decimal_isDigit m u (by rw [hs]; simp)
    have htoken := numberToken_decimal m r hm hr
    have hne : ∀ c : CodeUnit, isDigit c = false → u ≠ c := by
      rintro c hc rfl
      rw [hu] at hc
      cases hc
    simp only [stringify, Number.isFinite, if_true, Number.toText_natCast m hm]
    rw [hs, List.cons_append] at htoken ⊢
    rw [parseValue, skipSpace_of_ne ⟨hne _ (by decide), hne _ (by decide), hne _ (by decide),
      hne _ (by decide)⟩]
    simp only [hne 34 (by decide), hne 91 (by decide), hne 123 (by decide), hne 116 (by decide),
      hne 102 (by decide), hne 110 (by decide), if_false, htoken, Option.map_some]
  | .str s, n + 1, r, _, _, _ => by
    rw [stringify, quote_append, parseValue, skipSpace_of_ne (by decide)]
    simp [stringBody_quoteBody]
  | .arr [], n + 1, r, _, _, _ => by
    simp [stringify, elementsText, parseValue, skipSpace]
  | .arr (x :: xs), n + 1, r, hv, _, hn => by
    obtain ⟨u, s, hs, h9, h10, h13, h32, h93, -⟩ := stringify_head x hv.1
    have hcons : ∃ s', elementsText (x :: xs) = u :: s' := by
      cases xs with
      | nil => exact ⟨s, by rw [elementsText, hs]⟩
      | cons y ys => exact ⟨s ++ 44 :: elementsText (y :: ys), by rw [elementsText, hs]; rfl⟩
    obtain ⟨s', hs'⟩ := hcons
    have hlen : 2 * (elementsText (x :: xs)).length + 1 ≤ n := by
      simp only [stringify, List.length_append, List.length_cons, List.length_nil] at hn
      omega
    have hrest := parseElements_elementsText (x :: xs) n r (by simp) hv hlen
    have hshape : stringify (arr (x :: xs)) ++ r = 91 :: u :: (s' ++ 93 :: r) := by
      simp [stringify, hs']
    rw [hs', List.cons_append] at hrest
    rw [hshape, parseValue, skipSpace_of_ne (by decide)]
    simp [skipSpace_of_ne ⟨h9, h10, h13, h32⟩, h93, hrest]
  | .obj [], n + 1, r, _, _, _ => by
    simp [stringify, membersText, parseValue, skipSpace]
  | .obj ((k, x) :: ps), n + 1, r, hv, _, hn => by
    have hlen : 2 * (membersText ((k, x) :: ps)).length + 1 ≤ n := by
      simp only [stringify, List.length_append, List.length_cons, List.length_nil] at hn
      omega
    have hrest := parseMembers_membersText ((k, x) :: ps) n r (by simp) hv.1 hlen
    have hcons : ∃ s', membersText ((k, x) :: ps) = 34 :: s' := by
      cases ps <;> exact ⟨_, by rw [membersText]; rfl⟩
    obtain ⟨s', hs'⟩ := hcons
    have hshape : stringify (obj ((k, x) :: ps)) ++ r = 123 :: 34 :: (s' ++ 125 :: r) := by
      simp [stringify, hs']
    have hspace : skipSpace (34 :: (s' ++ 125 :: r)) = 34 :: (s' ++ 125 :: r) :=
      skipSpace_of_ne (by decide)
    rw [hs', List.cons_append] at hrest
    rw [hshape, parseValue, skipSpace_of_ne (by decide)]
    simp [hspace, hrest, hv.2]

theorem parseElements_elementsText : ∀ (xs : List Value) (n : ℕ) (r : JSString), xs ≠ [] →
    StorableElements xs → 2 * (elementsText xs).length + 1 ≤ n →
    parseElements n (elementsText xs ++ 93 :: r) = some (xs, r)
  | [], _, _, h, _, _ => absurd rfl h
  | _, 0, _, _, _, hn => by omega
  | [x], n + 1, r, _, hv, hn => by
    rw [elementsText] at hn ⊢
    rw [parseElements_one x n _ r 93 (parseValue_stringify x n _ hv.1 (endsNumber_close r).1
      (by omega)) (.inr rfl)]
    rfl
  | x :: y :: xs, n + 1, r, _, hv, hn => by
    rw [elementsText, List.length_append, List.length_cons] at hn
    have hpos := stringify_length_pos x hv.1
    rw [elementsText, List.append_assoc, List.cons_append,
      parseElements_one x n _ _ 44 (parseValue_stringify x n _ hv.1 (endsNumber_comma _) (by omega))
        (.inl rfl),
      parseElements_elementsText (y :: xs) n r (by simp) hv.2 (by omega)]
    rfl

theorem parseMembers_membersText : ∀ (ps : List (JSString × Value)) (n : ℕ) (r : JSString), ps ≠ [] →
    StorableMembers ps → 2 * (membersText ps).length + 1 ≤ n →
    parseMembers n (membersText ps ++ 125 :: r) = some (ps, r)
  | [], _, _, h, _, _ => absurd rfl h
  | _, 0, _, _, _, hn => by omega
  | [(k, x)], n + 1, r, _, hv, hn => by
    rw [membersText, List.length_append, List.length_cons] at hn
    rw [membersText, List.append_assoc, List.cons_append,
      parseMembers_one k x n _ r 125 (parseValue_stringify x n _ hv.1 (endsNumber_close r).2
        (by omega)) (.inr rfl)]
    rfl
  | (k, x) :: p :: ps, n + 1, r, _, hv, hn => by
    simp only [membersText, List.length_append, List.length_cons] at hn
    have hpos := stringify_length_pos x hv.1
    rw [membersText, List.append_assoc, List.cons_append, List.append_assoc, List.cons_append,
      parseMembers_one k x n _ _ 44 (parseValue_stringify x n _ hv.1 (endsNumber_comma _) (by omega))
        (.inl rfl),
      parseMembers_membersText (p :: ps) n r (by simp) hv.2 (by omega)]
    rfl
end

theorem storableElements_iff {xs : List Value} :
    StorableElements xs ↔ ∀ x ∈ xs, Storable x := by
  induction xs with
  | nil => simp [StorableElements]
  | cons x xs ih => simp [StorableElements, ih]

theorem parse_stringify (v : Value) (h : Storable v) : parse (stringify v) = some v := by
  have hp := parseValue_stringify v (2 * (stringify v).length + 2) [] h endsNumber_nil (by omega)
  rw [List.append_nil] at hp
  simp [parse, hp, skipSpace]

end Ecma.Value
