import Spazito.FormatterLine
import Spazito.Tickers

set_option autoImplicit false

/-!
# Reading the line back

The separator stands between the segments only, so splitting at it gives one segment a slot; the
label of a tracked ticker, up to the first space, gives the ticker.
-/
namespace Spazito.Formatter
open Ecma

/-! ## Labels -/

/-- ASCII, but no bar. -/
def isSlotUnit (u : CodeUnit) : Bool := u < 128 && u != 124

def isPlainUnit (u : CodeUnit) : Bool := isSlotUnit u && u != 32

theorem isLabelUnit_plain {u : CodeUnit} (h : isLabelUnit u = true) : isPlainUnit u = true := by
  simp [isLabelUnit, isPlainUnit, isSlotUnit, isUpper, isDigit, UInt16.le_iff_toNat_le,
    UInt16.lt_iff_toNat_lt, ← UInt16.toNat_inj] at h ⊢
  omega

theorem isMoneyUnit_slot {u : CodeUnit} (h : isMoneyUnit u = true) : isSlotUnit u = true := by
  simp [isMoneyUnit, isSlotUnit, isDigit, UInt16.le_iff_toNat_le, UInt16.lt_iff_toNat_lt,
    ← UInt16.toNat_inj] at h ⊢
  omega

theorem display_label (symbol : JSString) :
    (display symbol).label.length ≤ 10 ∧ ∀ u ∈ (display symbol).label, isPlainUnit u = true := by
  have hknown : ∀ entry ∈ displayRules,
      entry.2.label.length ≤ 10 ∧ entry.2.label.all isPlainUnit = true := by decide
  rw [display]
  split
  · next rule hrule =>
    obtain ⟨front, back, hrules, -⟩ := List.lookup_eq_some_iff.mp hrule
    obtain ⟨hlen, hplain⟩ := hknown (symbol, rule) (by rw [hrules]; simp)
    exact ⟨hlen, fun u hu => List.all_eq_true.mp hplain u hu⟩
  · refine ⟨List.length_take_le _ _, fun u hu => isLabelUnit_plain ?_⟩
    have hkept := List.mem_of_mem_take hu
    rw [Regex.replaceAll_unit, List.mem_filter] at hkept
    simpa using hkept.2

theorem display_canonical {t : JSString} (ht : Tickers.Canonical t)
    (hno : displayRules.lookup t = none) : display t = ⟨t, defaultDecimals⟩ := by
  have hkeep : Regex.replaceAll (.unit fun u => !isLabelUnit u) [] t = t := by
    rw [Regex.replaceAll_unit, List.filter_eq_self]
    intro u hu
    simpa [isLabelUnit, Tickers.isTickerUnit, Tickers.isTickerHead] using ht.unit u hu
  have hlen : t.length ≤ 10 := by
    obtain ⟨u, w, rfl, -, -, hw⟩ := ht
    rw [List.length_cons]
    omega
  rw [display, hno]
  dsimp only
  rw [hkeep, List.take_of_length_le hlen]

theorem label_ne_nil {t : JSString} (ht : Tickers.Canonical t) : (display t).label ≠ [] := by
  have hknown : ∀ entry ∈ displayRules, entry.2.label ≠ [] := by decide
  cases hrule : displayRules.lookup t with
  | some rule =>
    obtain ⟨front, back, hrules, -⟩ := List.lookup_eq_some_iff.mp hrule
    rw [display, hrule]
    exact hknown (t, rule) (by rw [hrules]; simp)
  | none =>
    obtain ⟨u, w, rfl, -⟩ := id ht
    rw [display_canonical ht hrule]
    exact List.cons_ne_nil u w

def tickerOf (seg : JSString) : JSString :=
  let label := seg.takeWhile fun u => u != 32
  match displayRules.find? fun entry => entry.2.label == label with
  | some entry => entry.1
  | none => label

theorem tickerOf_segment {t : JSString} (ht : Tickers.Canonical t) (rest : JSString) :
    tickerOf ((display t).label ++ js " " ++ rest) = t := by
  have hlabel : ((display t).label ++ js " " ++ rest).takeWhile (fun u => u != 32) =
      (display t).label := by
    rw [List.append_assoc, List.takeWhile_append_of_pos]
    · simp [js, encodePoint]
    · exact fun u hu => (Bool.and_eq_true_iff.mp ((display_label t).2 u hu)).2
  rw [tickerOf, hlabel]
  cases hrule : displayRules.lookup t with
  | some rule =>
    have hback : ∀ entry ∈ displayRules, (displayRules.find? fun other =>
        other.2.label == entry.2.label).map Prod.fst = some entry.1 := by decide
    obtain ⟨front, back, hrules, -⟩ := List.lookup_eq_some_iff.mp hrule
    have hfind := hback (t, rule) (by rw [hrules]; simp)
    have hdisplay : (display t).label = rule.label := by rw [display, hrule]
    obtain ⟨entry, hentry, hfst⟩ := Option.map_eq_some_iff.mp hfind
    rw [hdisplay, hentry]
    exact hfst
  | none =>
    have hforeign : ∀ entry ∈ displayRules, entry.2.label.all Tickers.isTickerUnit = false := by
      decide
    have hfind : (displayRules.find? fun entry => entry.2.label == t) = none := by
      refine List.find?_eq_none.mpr fun entry hentry heq => ?_
      have hunits : entry.2.label.all Tickers.isTickerUnit = true := by
        rw [beq_iff_eq.mp heq]
        exact List.all_eq_true.mpr ht.unit
      rw [hforeign entry hentry] at hunits
      cases hunits
    rw [display_canonical ht hrule, hfind]

/-! ## Segments -/

def ruleOf (v : Value) : DisplayRule :=
  match symbolOf (field v (js "ticker")) with
  | .ok symbol => display symbol
  | .error _ => ⟨[], defaultDecimals⟩

/-- `n/a` alone, or a label with `n/a` or an amount behind it. -/
def IsSegment (rule : DisplayRule) (seg : JSString) : Prop :=
  seg = na ∨ 1 ≤ rule.label.length ∧ rule.label.length ≤ 10 ∧
    ∃ rest, seg = rule.label ++ js " " ++ rest ∧ (rest = na ∨ IsMoney rule.decimals rest)

theorem shown_cases (rule : DisplayRule) (ok price : Value) :
    shown rule ok price = na ∨ IsMoney rule.decimals (shown rule ok price) := by
  by_cases h : isTrue ok = true ∧ Formattable price
  · obtain ⟨hok, q, hq, hlt⟩ := h
    rw [shown_money hok hq hlt]
    exact .inr (formatMoney_isMoney hlt _)
  · exact .inl (shown_na h)

theorem segment_isSegment {v : Value} {seg : JSString} (h : segment v = .ok seg) :
    IsSegment (ruleOf v) seg := by
  by_cases hv : isObject v = true
  · cases hs : symbolOf (field v (js "ticker")) with
    | error f => simp [segment, hv, property_field hv, hs] at h
    | ok symbol =>
      rw [segment_eq hv hs, Except.ok.injEq] at h
      subst h
      rw [ruleOf, hs]
      split_ifs with hempty
      · exact .inl rfl
      · exact .inr ⟨List.length_pos_iff.mpr hempty, (display_label symbol).1, _, rfl,
          shown_cases _ _ _⟩
  · have hna : seg = na := by
      simpa [segment, Bool.eq_false_iff.mpr hv, eq_comm] using h
    exact .inl hna

theorem segment_units {v : Value} {seg : JSString} (h : segment v = .ok seg) :
    ∀ u ∈ seg, isSlotUnit u = true := by
  have hna : na.all isSlotUnit = true := by decide
  have hspace : (js " ").all isSlotUnit = true := by decide
  rcases segment_isSegment h with rfl | ⟨-, -, rest, rfl, hrest⟩
  · exact List.all_eq_true.mp hna
  · have hlabel : ∀ u ∈ (ruleOf v).label, isSlotUnit u = true := by
      intro u hu
      rw [ruleOf] at hu
      split at hu
      · exact (Bool.and_eq_true_iff.mp ((display_label _).2 u hu)).1
      · cases hu
    have hbehind : ∀ u ∈ rest, isSlotUnit u = true := by
      rcases hrest with rfl | hrest
      · exact List.all_eq_true.mp hna
      · exact fun u hu => isMoneyUnit_slot (hrest.units u hu)
    exact List.forall_mem_append.mpr
      ⟨List.forall_mem_append.mpr ⟨hlabel, List.all_eq_true.mp hspace⟩, hbehind⟩

theorem segments_units {quotes : List Value} {segs : List JSString}
    (h : List.Forall₂ (fun q seg => segment q = .ok seg) quotes segs) :
    ∀ seg ∈ segs, ∀ u ∈ seg, isSlotUnit u = true := by
  induction h with
  | nil => simp
  | cons hseg _ ih => exact List.forall_mem_cons.mpr ⟨segment_units hseg, ih⟩

/-! ## The line -/

def Names (v : Value) (t : JSString) : Prop :=
  isObject v = true ∧ field v (js "ticker") = .str t ∧ Tickers.Canonical t

theorem Names.symbolOf_eq {v : Value} {t : JSString} (h : Names v t) :
    symbolOf (field v (js "ticker")) = .ok t := by
  have hnormal : toUpperCase (trim t) = t := h.2.2.normalizeText_eq
  rw [h.2.1, show symbolOf (.str t) = .ok (toUpperCase (trim t)) from rfl, hnormal]

theorem Names.ruleOf_eq {v : Value} {t : JSString} (h : Names v t) : ruleOf v = display t := by
  rw [ruleOf, h.symbolOf_eq]

theorem Names.tickerOf_eq {v : Value} {t seg : JSString} (h : Names v t)
    (hseg : segment v = .ok seg) : tickerOf seg = t := by
  rw [segment_eq h.1 h.symbolOf_eq, if_neg (label_ne_nil h.2.2), Except.ok.injEq] at hseg
  rw [← hseg]
  exact tickerOf_segment h.2.2 _

theorem label_injective {t t' : JSString} (ht : Tickers.Canonical t) (ht' : Tickers.Canonical t')
    (h : (display t).label = (display t').label) : t = t' := by
  rw [← tickerOf_segment ht [], h, tickerOf_segment ht']

theorem labels_nodup {quotes : List Value} {tickers : List JSString}
    (h : List.Forall₂ Names quotes tickers) (hnodup : tickers.Nodup) :
    (quotes.map fun q => (ruleOf q).label).Nodup := by
  have hlabels : (quotes.map fun q => (ruleOf q).label) = tickers.map fun t => (display t).label := by
    clear hnodup
    induction h with
    | nil => rfl
    | cons hq _ ih => rw [List.map_cons, List.map_cons, ih, hq.ruleOf_eq]
  have hcanonical : ∀ t ∈ tickers, Tickers.Canonical t := by
    clear hnodup hlabels
    induction h with
    | nil => simp
    | cons hq _ ih => exact List.forall_mem_cons.mpr ⟨hq.2.2, ih⟩
  rw [hlabels]
  exact hnodup.map_on fun t ht t' ht' heq => label_injective (hcanonical t ht) (hcanonical t' ht') heq

theorem tickers_read {quotes : List Value} {segs tickers : List JSString}
    (hsegs : List.Forall₂ (fun q seg => segment q = .ok seg) quotes segs)
    (h : List.Forall₂ Names quotes tickers) : segs.map tickerOf = tickers := by
  induction hsegs generalizing tickers with
  | nil =>
    cases h
    rfl
  | cons hseg _ ih =>
    cases h with
    | cons hq hrest => rw [List.map_cons, hq.tickerOf_eq hseg, ih hrest]

/-- What can be read off the line: its slots in order, and from each the ticker. -/
structure ReadsBack (quotes : List Value) (line : JSString) : Prop where
  ascii : ∀ u ∈ line, u < 128
  slots : List.Forall₂ (fun q seg => segment q = .ok seg ∧ IsSegment (ruleOf q) seg) quotes
    (splitText separator line)
  labels : ∀ tickers, List.Forall₂ Names quotes tickers → tickers.Nodup →
    (quotes.map fun q => (ruleOf q).label).Nodup
  tickers : ∀ tickers, List.Forall₂ Names quotes tickers →
    (splitText separator line).map tickerOf = tickers

theorem separator_ascii : separator.all (fun u => u < 128) = true := by decide

theorem intercalate_ascii {segs : List JSString} (h : ∀ seg ∈ segs, ∀ u ∈ seg, isSlotUnit u = true) :
    ∀ u ∈ List.intercalate separator segs, u < 128 := by
  intro u hu
  rcases mem_intercalate hu with hu | ⟨seg, hseg, hu⟩
  · simpa using List.all_eq_true.mp separator_ascii u hu
  · simpa using (Bool.and_eq_true_iff.mp (h seg hseg u hu)).1

theorem splitText_line {segs : List JSString} (hne : segs ≠ [])
    (h : ∀ seg ∈ segs, ∀ u ∈ seg, isSlotUnit u = true) :
    splitText separator (List.intercalate separator segs) = segs := by
  have hseparator : separator = [32] ++ 124 :: [32] := by decide
  rw [hseparator]
  refine splitText_intercalate (by decide) hne fun seg hseg hbar => ?_
  exact absurd (h seg hseg 124 hbar) (by decide)

/-- The line of a list that is not empty can be read back slot by slot. -/
theorem summaryLine_readable (quotes : List Value) (hne : quotes ≠ [])
    (hquotes : ∀ q ∈ quotes, Legible q) :
    ∃ line, summaryLine quotes = .ok line ∧ ReadsBack quotes line := by
  obtain ⟨segs, hsegs⟩ := exists_mapM fun q hq => segment_of_legible (hquotes q hq)
  have hall := mapM_eq_ok.mp hsegs
  have hunits := segments_units hall
  have hsegsne : segs ≠ [] := by
    rintro rfl
    cases hall
    exact hne rfl
  refine ⟨List.intercalate separator segs, ?_, ?_⟩
  · rw [summaryLine, if_neg hne, hsegs]
    rfl
  · have hsplit := splitText_line hsegsne hunits
    exact {
      ascii := intercalate_ascii hunits
      slots := by
        rw [hsplit]
        exact hall.imp fun q seg hseg => ⟨hseg, segment_isSegment hseg⟩
      labels := fun tickers htickers hnodup => labels_nodup htickers hnodup
      tickers := fun tickers htickers => by
        rw [hsplit]
        exact tickers_read hall htickers }

def sampleSlots : List Value := [
  .obj [(js "ticker", .str (js "SPY")), (js "price", .str (js "7500.23")), (js "ok", .bool true)],
  .null,
  .obj [(js "ticker", .str (js "BRK.B")), (js "price", .null), (js "ok", .bool false)]]

theorem summaryLine_readable_sample :
    summaryLine sampleSlots = .ok (js "S&P 7,500 | n/a | BRK.B n/a") ∧
      ∃ line, summaryLine sampleSlots = .ok line ∧ ReadsBack sampleSlots line := by
  have hlegible : ∀ q ∈ sampleSlots,
      isObject q = false ∨ Value.Printable (field q (js "ticker")) := by decide +kernel
  exact ⟨by decide +kernel, summaryLine_readable sampleSlots (List.cons_ne_nil _ _) hlegible⟩

end Spazito.Formatter
