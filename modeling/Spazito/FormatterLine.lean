import Spazito.EcmaCoercion
import Spazito.FormatterMoney

set_option autoImplicit false

/-!
# The segments of the daily line

Which slots show a price, and what the alarm makes of them.
-/
namespace Spazito.Formatter
open Ecma

/-! ## Prices as text -/

def IsDecimal (s : JSString) : Prop :=
  ∃ sign ip fp, s = sign ++ (ip ++ fp) ∧ (sign = [] ∨ sign = js "-") ∧ Digits ip ∧
    (fp = [] ∨ ∃ ds, fp = js "." ++ ds ∧ Digits ds)

theorem denotes_unit_eq (u : CodeUnit) :
    Regex.Denotes (.unit (· == u)) fun w => w = [u] := by
  intro c e
  rw [Regex.denotes_unit c e]
  simp

theorem denotes_digits : Regex.Denotes (.rep 1 none (.unit isDigit)) Digits := by
  intro c e
  rw [Regex.denotes_rep_unit 1 none (by simp) c e]
  simp [Digits, Nat.one_le_iff_ne_zero]

theorem test_pricePattern (s : JSString) : Regex.test pricePattern s = true ↔ IsDecimal s := by
  have hfraction := (denotes_unit_eq 46).seq denotes_digits
  have h := Regex.Finishes.seq (denotes_unit_eq 45).opt (Regex.Finishes.seq denotes_digits
    (Regex.Finishes.seq hfraction.opt Regex.finishes_finish))
  rw [pricePattern, Regex.test_start, h ⟨[], s, []⟩]
  constructor
  · rintro ⟨sign, _, rfl, hsign, ip, _, rfl, hip, fp, _, rfl, hfp, rfl⟩
    rw [List.append_nil]
    refine ⟨sign, ip, fp, rfl, hsign, hip, hfp.imp_right ?_⟩
    rintro ⟨_, ds, rfl, rfl, hds⟩
    exact ⟨ds, rfl, hds⟩
  · rintro ⟨sign, ip, fp, rfl, hsign, hip, hfp⟩
    refine ⟨sign, _, rfl, hsign, ip, _, rfl, hip, fp, [], by simp, hfp.imp_right ?_, rfl⟩
    rintro ⟨ds, rfl, hds⟩
    exact ⟨_, ds, rfl, rfl, hds⟩

/-! ## Segments -/

/-- `v[key]` of an object. -/
def field (v : Value) (key : JSString) : Value :=
  match Value.property v key with
  | .ok x => x
  | .error _ => .undefined

theorem property_field {v : Value} (h : isObject v = true) (key : JSString) :
    Value.property v key = .ok (field v key) := by
  cases v <;> first | rfl | simp [isObject] at h

def labelOf (v : Value) : JSString :=
  match symbolOf (field v (js "ticker")) with
  | .ok symbol => (display symbol).label
  | .error _ => []

def Formattable (price : Value) : Prop := ∃ q, parsePrice price = .finite q ∧ |q| < maxFormattable

theorem formattable_str {s : JSString} : Formattable (.str s) ↔
    IsDecimal (trim s) ∧ ∃ q, Number.ofText (trim s) = .finite q ∧ |q| < maxFormattable := by
  unfold Formattable parsePrice
  dsimp only
  by_cases h : IsDecimal (trim s)
  · simp only [if_pos ((test_pricePattern _).mpr h), h, true_and]
  · simp [mt (test_pricePattern _).mp h, h]

structure Shows (v : Value) : Prop where
  object : isObject v = true
  ok : isTrue (field v (js "ok")) = true
  label : labelOf v ≠ []
  price : Formattable (field v (js "price"))

def IsNa (seg : JSString) : Prop := seg = na ∨ ∃ label, seg = label ++ js " " ++ na

theorem segment_eq {v : Value} {symbol : JSString} (hv : isObject v = true)
    (hs : symbolOf (field v (js "ticker")) = .ok symbol) :
    segment v = .ok (if (display symbol).label = [] then na else (display symbol).label ++ js " " ++
      shown (display symbol) (field v (js "ok")) (field v (js "price"))) := by
  simp only [segment, hv, property_field hv, hs, ok_bind, pure_eq_ok, Bool.not_true,
    Bool.false_eq_true, ↓reduceIte]
  split_ifs <;> rfl

theorem shown_na {rule : DisplayRule} {ok price : Value}
    (h : ¬ (isTrue ok = true ∧ Formattable price)) : shown rule ok price = na := by
  unfold shown
  split_ifs with hok
  · split
    · next q hq =>
      refine if_pos (not_lt.mp fun hlt => h ⟨hok, q, hq, hlt⟩)
    · rfl
  · rfl

theorem shown_money {rule : DisplayRule} {ok price : Value} {q : ℚ} (hok : isTrue ok = true)
    (hp : parsePrice price = .finite q) (hq : |q| < maxFormattable) :
    shown rule ok price = formatMoney (.finite q) rule.decimals := by
  simp only [shown, hok, hp, ↓reduceIte, not_le.mpr hq]

theorem shown_end (rule : DisplayRule) (ok price : Value) :
    shown rule ok price ≠ [] ∧ ∀ u ∈ (shown rule ok price).getLast?, isSpace u = false := by
  have hna : na ≠ [] ∧ ∀ u ∈ na.getLast?, isSpace u = false := by
    refine ⟨by decide, fun u hu => ?_⟩
    obtain rfl : u = 97 := by simpa [na, js, encodePoint, eq_comm] using hu
    decide
  by_cases h : isTrue ok = true ∧ Formattable price
  · obtain ⟨hok, q, hq, hlt⟩ := h
    rw [shown_money hok hq hlt]
    refine ⟨(formatMoney_isMoney hlt _).ne_nil, fun u hu => ?_⟩
    have hunit := (formatMoney_isMoney hlt _).units u (List.mem_of_mem_getLast? hu)
    simp [isMoneyUnit, isDigit, isSpace, UInt16.le_iff_toNat_le, ← UInt16.toNat_inj] at hunit ⊢
    omega
  · rwa [shown_na h]

theorem not_isNa_money {label : JSString} {q : ℚ} (hq : |q| < maxFormattable) (digits : ℕ) :
    ¬ IsNa (label ++ js " " ++ formatMoney (.finite q) digits) := by
  have hlast : (label ++ js " " ++ formatMoney (.finite q) digits).getLast? ≠ some 97 := by
    rw [List.getLast?_append]
    cases h : (formatMoney (.finite q) digits).getLast? with
    | none => simp [js, encodePoint, List.getLast?_append]
    | some u =>
      have hu := (formatMoney_isMoney hq digits).units u (List.mem_of_mem_getLast? h)
      rintro ⟨⟩
      exact absurd hu (by decide)
  have hna : na.getLast? = some 97 := by decide
  rintro (h | ⟨label', h⟩) <;> rw [h] at hlast
  · exact hlast hna
  · exact hlast (by rw [List.getLast?_append, hna]; rfl)

theorem segment_isNa {v : Value} {seg : JSString} (h : segment v = .ok seg) :
    IsNa seg ↔ ¬ Shows v := by
  by_cases hv : isObject v = true
  · cases hs : symbolOf (field v (js "ticker")) with
    | error f => simp [segment, hv, property_field hv, hs] at h
    | ok symbol =>
      have hlabel : labelOf v = (display symbol).label := by rw [labelOf, hs]
      rw [segment_eq hv hs, Except.ok.injEq] at h
      subst h
      split_ifs with hempty
      · exact iff_of_true (.inl rfl) fun hshows => hshows.label (hlabel.trans hempty)
      · by_cases hp : isTrue (field v (js "ok")) = true ∧ Formattable (field v (js "price"))
        · obtain ⟨hok, q, hq, hlt⟩ := hp
          rw [shown_money hok hq hlt]
          refine iff_of_false (not_isNa_money hlt _) (not_not.mpr ?_)
          exact ⟨hv, hok, hlabel ▸ hempty, q, hq, hlt⟩
        · rw [shown_na hp]
          exact iff_of_true (.inr ⟨_, rfl⟩) fun hshows => hp ⟨hshows.ok, hshows.price⟩
  · have hna : seg = na := by
      simpa [segment, Bool.eq_false_iff.mpr hv, eq_comm] using h
    exact iff_of_true (.inl hna) fun hshows => hv hshows.object

/-! ## The alarm -/

/-- null, something that is no object, or an object whose ticker is a string. -/
def Slot (v : Value) : Prop := isObject v = false ∨ ∃ s, field v (js "ticker") = .str s

/-- null, something that is no object, or an object whose ticker has a text. -/
def Legible (v : Value) : Prop := isObject v = false ∨ Value.Printable (field v (js "ticker"))

theorem exists_symbolOf {ticker : Value} (h : Value.Printable ticker) :
    ∃ symbol, symbolOf ticker = .ok symbol := by
  obtain ⟨s, hs⟩ := (Value.toText_ok ticker).mpr h
  cases ticker
  case undefined | null => exact ⟨[], rfl⟩
  all_goals exact ⟨toUpperCase (trim s), by simp only [symbolOf, hs, Except.map]⟩

theorem segment_of_legible {v : Value} (h : Legible v) : ∃ seg, segment v = .ok seg := by
  by_cases hv : isObject v = true
  · obtain ⟨symbol, hsymbol⟩ := exists_symbolOf (h.resolve_left (by simp [hv]))
    exact ⟨_, segment_eq hv hsymbol⟩
  · exact ⟨na, by simp [segment, Bool.eq_false_iff.mpr hv]⟩

theorem Slot.legible {v : Value} (h : Slot v) : Legible v :=
  h.imp_right fun ⟨s, hs⟩ => by rw [hs, Value.Printable]; trivial

theorem segment_of_slot {v : Value} (h : Slot v) : ∃ seg, segment v = .ok seg :=
  segment_of_legible h.legible

theorem failed_eq (v : Value) : failed v = !isTrue (field v (js "ok")) := by
  cases v <;> simp [failed, field, Value.property, Value.truthy, isTrue]

theorem allFailed_eq_true {quotes : List Value} : allFailed quotes = true ↔
    quotes ≠ [] ∧ ∀ q ∈ quotes, isTrue (field q (js "ok")) = false := by
  simp [allFailed, failed_eq]

theorem all_na_iff {quotes : List Value} {segs : List JSString} (h : quotes.mapM segment = .ok segs) :
    (∀ seg ∈ segs, IsNa seg) ↔ ∀ q ∈ quotes, ¬ Shows q := by
  have hall := mapM_eq_ok.mp h
  clear h
  induction hall with
  | nil => simp
  | cons hseg _ ih =>
    rw [List.forall_mem_cons, List.forall_mem_cons]
    exact and_congr (segment_isNa hseg) ih

/-- The alarm and the line agree exactly when some slot shows a price or none is marked ok. -/
theorem allFailed_agrees_iff (quotes : List Value) (hslots : ∀ q ∈ quotes, Slot q) :
    ∃ segs, quotes.mapM segment = .ok segs ∧
      summaryLine quotes = .ok (if quotes = [] then emptyWatchlistMessage
        else List.intercalate separator segs) ∧
      ((allFailed quotes = true ↔ quotes ≠ [] ∧ ∀ seg ∈ segs, IsNa seg) ↔
        (∃ q ∈ quotes, Shows q) ∨ ∀ q ∈ quotes, isTrue (field q (js "ok")) = false) := by
  obtain ⟨segs, hsegs⟩ := exists_mapM fun q hq => segment_of_slot (hslots q hq)
  refine ⟨segs, hsegs, ?_, ?_⟩
  · unfold summaryLine
    split_ifs
    · rfl
    · rw [hsegs]
      rfl
  rw [allFailed_eq_true, all_na_iff hsegs]
  constructor
  · intro h
    by_cases hshow : ∃ q ∈ quotes, Shows q
    · exact .inl hshow
    · push Not at hshow
      by_cases hne : quotes = []
      · exact .inr (by simp [hne])
      · exact .inr (h.mpr ⟨hne, hshow⟩).2
  · rintro (⟨q, hq, hshow⟩ | hnone)
    · refine iff_of_false (fun h => ?_) fun h => h.2 q hq hshow
      exact absurd hshow.ok (Bool.eq_false_iff.mp (h.2 q hq))
    · refine and_congr_right fun _ => iff_of_true hnone fun q hq hshow => ?_
      exact absurd hshow.ok (Bool.eq_false_iff.mp (hnone q hq))

def exponentSlot : Value :=
  .obj [(js "ticker", .str (js "SPY")), (js "price", .str (js "1e3")), (js "ok", .bool true)]

theorem allFailed_exponent : Slot exponentSlot ∧
    [exponentSlot].mapM segment = .ok [js "S&P n/a"] ∧
    ¬ (allFailed [exponentSlot] = true ↔
      [exponentSlot] ≠ [] ∧ ∀ seg ∈ [js "S&P n/a"], IsNa seg) := by
  have hquiet : allFailed [exponentSlot] = false := by decide
  refine ⟨.inr ⟨js "SPY", rfl⟩, by decide +kernel, fun h => ?_⟩
  have halarm := h.mpr ⟨by simp, fun seg hseg => .inr ⟨js "S&P", ?_⟩⟩
  · rw [hquiet] at halarm
    cases halarm
  · rw [List.mem_singleton.mp hseg]
    decide

theorem allFailed_agrees_iff_exponent : ∃ segs, [exponentSlot].mapM segment = .ok segs ∧
      summaryLine [exponentSlot] = .ok (if [exponentSlot] = [] then emptyWatchlistMessage
        else List.intercalate separator segs) ∧
      ((allFailed [exponentSlot] = true ↔ [exponentSlot] ≠ [] ∧ ∀ seg ∈ segs, IsNa seg) ↔
        (∃ q ∈ [exponentSlot], Shows q) ∨
          ∀ q ∈ [exponentSlot], isTrue (field q (js "ok")) = false) :=
  allFailed_agrees_iff [exponentSlot] (by
    intro q hq
    rw [List.mem_singleton.mp hq]
    exact .inr ⟨js "SPY", rfl⟩)

end Spazito.Formatter
