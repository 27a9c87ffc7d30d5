import Spazito.AppsScript
import Spazito.LineReading
import Spazito.PriceRuns

set_option autoImplicit false

/-!
# From the price source to the line

Which of the quotes that the source accepts the daily line can show.
-/
namespace Spazito.PriceService
open Ecma Script

/-! ## Accepted quotes -/

theorem quoteOf_ok {ticker : JSString} {answer : Except JSError Response}
    (hok : (quoteOf ticker answer).ok = true) :
    ∃ text body quote price priceText, answer = .ok ⟨200, text⟩ ∧ Value.parse text = some body ∧
      Value.property body quoteField = .ok quote ∧ Value.property quote priceField = .ok price ∧
      Value.toText price = .ok priceText ∧ quoteOf ticker answer = ⟨ticker, .ok priceText⟩ := by
  rcases quoteOf_cases ticker answer with hq | ⟨text, body, htext, hbody, hread⟩
  · rw [hq] at hok
    cases hok
  · rcases reading_cases hread with ⟨hq, -⟩ | ⟨reason, -, hq⟩ | ⟨quote, price, priceText, hin⟩
    · rw [hq] at hok
      cases hok
    · rw [hq] at hok
      cases hok
    · exact ⟨text, body, quote, price, priceText, htext, hbody, hin⟩

def lineLabel (ticker : JSString) : JSString :=
  (Formatter.display (toUpperCase (trim ticker))).label

theorem shows_toValue (ticker price : JSString) :
    Formatter.Shows (Quote.toValue ⟨ticker, .ok price⟩) ↔
      lineLabel ticker ≠ [] ∧ Formatter.Formattable (.str price) := by
  constructor
  · intro h
    exact ⟨h.label, h.price⟩
  · rintro ⟨hlabel, hprice⟩
    exact ⟨rfl, rfl, hlabel, hprice⟩

/-! ## The segments of tracked tickers -/

theorem lineLabel_canonical {t : JSString} (ht : Tickers.Canonical t) :
    lineLabel t ≠ [] ∧ ∀ u ∈ (lineLabel t).head?, isSpace u = false := by
  have hnormal : toUpperCase (trim t) = t := ht.normalizeText_eq
  have hknown : ∀ rule ∈ Formatter.displayRules,
      rule.2.label.head?.all (fun u => !isSpace u) = true := by decide
  rw [lineLabel, hnormal]
  refine ⟨Formatter.label_ne_nil ht, fun u hu => ?_⟩
  cases hrule : Formatter.displayRules.lookup t with
  | some rule =>
    obtain ⟨front, back, hrules, -⟩ := List.lookup_eq_some_iff.mp hrule
    have hhead := hknown (t, rule) (by rw [hrules]; simp)
    rw [Formatter.display, hrule] at hu
    simpa [Option.mem_def.mp hu] using hhead
  | none =>
    rw [Formatter.display_canonical ht hrule] at hu
    exact (Tickers.isTickerUnit_plain (ht.unit u (List.mem_of_mem_head? hu))).2.2

theorem segment_toValue {q : Quote} (ht : Tickers.Canonical q.ticker) :
    Formatter.segment q.toValue = .ok (lineLabel q.ticker ++ js " " ++
      Formatter.shown (Formatter.display (toUpperCase (trim q.ticker)))
        (Formatter.field q.toValue (js "ok")) (Formatter.field q.toValue (js "price"))) := by
  have hobj : Formatter.isObject q.toValue = true := by
    unfold Quote.toValue
    split <;> rfl
  have hsymbol : Formatter.symbolOf (Formatter.field q.toValue (js "ticker")) =
      .ok (toUpperCase (trim q.ticker)) := by
    unfold Quote.toValue
    split <;> rfl
  have hlabel : (Formatter.display (toUpperCase (trim q.ticker))).label ≠ [] := (lineLabel_canonical ht).1
  rw [Formatter.segment_eq hobj hsymbol, if_neg hlabel]
  rfl

/-- An accepted quote shows a number on the line exactly when its ticker leaves a label and its
price, as text, is a plain decimal below the bound. -/
theorem quote_shown_iff [Platform] (ticker apiKey text : JSString) (w : World) (q : Quote)
    (hanswer : ∀ r, w.env.fetch 0 r = .ok ⟨200, text⟩)
    (hq : ((quote ticker apiKey).run host w).outcome = .ok q) (hok : q.ok = true) :
    ∃ body quote price priceText line, Value.parse text = some body ∧
      Value.property body quoteField = .ok quote ∧ Value.property quote priceField = .ok price ∧
      Value.toText price = .ok priceText ∧ Formatter.summaryLine [q.toValue] = .ok line ∧
      (¬ Formatter.IsNa line ↔ lineLabel ticker ≠ [] ∧ Formatter.IsDecimal (trim priceText) ∧
        ∃ v, Number.ofText (trim priceText) = .finite v ∧ |v| < Formatter.maxFormattable) := by
  cases hu : url ticker apiKey with
  | error f =>
    have hrun := congrArg Prod.fst (exec_quote_error w hu)
    rw [Prog.exec, hq] at hrun
    obtain rfl := Except.ok.inj hrun
    cases hok
  | ok u =>
    have hrun := outcome_quote w hu (hanswer _)
    rw [hq] at hrun
    obtain rfl := Except.ok.inj hrun
    obtain ⟨text', body, quote, price, priceText, htext, hbody, hquote, hprice, hpriceText, heq⟩ :=
      quoteOf_ok hok
    obtain rfl : text = text' := by
      injection htext with htext
      injection htext
    rw [heq]
    obtain ⟨seg, hseg⟩ := Formatter.segment_of_slot
      (v := Quote.toValue ⟨ticker, .ok priceText⟩) (.inr ⟨ticker, rfl⟩)
    refine ⟨body, quote, price, priceText, seg, hbody, hquote, hprice, hpriceText, ?_, ?_⟩
    · simp [Formatter.summaryLine, hseg]
    · rw [Formatter.segment_isNa hseg, not_not, shows_toValue, Formatter.formattable_str]

section Sample
open AppsScript

def answering (body : JSString) : World :=
  ⟨sampleStore, { sampleEnv with fetch := fun _ _ => .ok ⟨200, body⟩ }⟩

def exponentBody : JSString := js "\x7b\"Global Quote\":\x7b\"05. price\":\"1e3\"\x7d\x7d"

def exponentQuote : Quote := ⟨js "SPY", .ok (js "1e3")⟩

theorem run_quote_exponent :
    ((quote (js "SPY") (js "demo")).run host (answering exponentBody)).outcome =
      .ok exponentQuote := by
  have hu : url (js "SPY") (js "demo") = .ok
      (js "https://www.alphavantage.co/query?function=GLOBAL_QUOTE&symbol=SPY&apikey=demo") := by
    decide +kernel
  have hq : quoteOf (js "SPY") (.ok ⟨200, exponentBody⟩) = exponentQuote := by decide +kernel
  have hanswer : ∀ r, (answering exponentBody).env.fetch 0 r = .ok ⟨200, exponentBody⟩ := fun _ => rfl
  rw [outcome_quote (answering exponentBody) hu (hanswer _), hq]

theorem quote_exponent :
    ((quote (js "SPY") (js "demo")).run host (answering exponentBody)).outcome =
        .ok exponentQuote ∧
      exponentQuote.ok = true ∧ Formatter.summaryLine [exponentQuote.toValue] = .ok (js "S&P n/a") :=
  ⟨run_quote_exponent, rfl, by decide +kernel⟩

theorem quote_shown_iff_exponent :
    ∃ body quote price priceText line, Value.parse exponentBody = some body ∧
      Value.property body quoteField = .ok quote ∧ Value.property quote priceField = .ok price ∧
      Value.toText price = .ok priceText ∧ Formatter.summaryLine [exponentQuote.toValue] = .ok line ∧
      (¬ Formatter.IsNa line ↔ lineLabel (js "SPY") ≠ [] ∧ Formatter.IsDecimal (trim priceText) ∧
        ∃ v, Number.ofText (trim priceText) = .finite v ∧ |v| < Formatter.maxFormattable) :=
  quote_shown_iff (js "SPY") (js "demo") exponentBody (answering exponentBody) exponentQuote
    (fun _ => rfl) run_quote_exponent rfl

end Sample

end Spazito.PriceService
