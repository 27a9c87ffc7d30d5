import Spazito.EcmaCase
import Spazito.EcmaJson
import Spazito.EcmaRegex

set_option autoImplicit false

/-! # core/Formatter.js: the daily line -/
namespace Spazito.Formatter
open Ecma

structure DisplayRule where
  label : JSString
  decimals : ℕ

/-- Symbols here are in upper case, so no name of the object prototype is among them. -/
def displayRules : List (JSString × DisplayRule) := [
  (js "SPY", ⟨js "S&P", 0⟩), (js "GLD", ⟨js "Gold", 0⟩), (js "SLV", ⟨js "Silver", 2⟩)]

def defaultDecimals : ℕ := 2
def na : JSString := js "n/a"
def separator : JSString := js " | "
def maxFormattable : ℚ := 10 ^ 21

def emptyWatchlistMessage : JSString :=
  js "Your watchlist is empty - text \"add SPY\" (or any ticker) to start getting daily prices."

/-- `/^-?\d+(\.\d+)?$/` -/
def pricePattern : Regex :=
  .seq .start (.seq (.rep 0 (some 1) (.unit (· == 45))) (.seq (.rep 1 none (.unit isDigit))
    (.seq (.rep 0 (some 1) (.seq (.unit (· == 46)) (.rep 1 none (.unit isDigit)))) .finish)))

def parsePrice (raw : Value) : Number :=
  match raw with
  | .num x => x
  | .str s => if Regex.test pricePattern (trim s) then Number.ofText (trim s) else .nan
  | _ => .nan

/-- `/\B(?=(\d{3})+(?!\d))/g` -/
def groupPattern : Regex :=
  .seq .noBoundary (.ahead (.seq (.rep 1 none (.rep 3 (some 3) (.unit isDigit)))
    (.notAhead (.unit isDigit))))

def formatMoney (value : Number) (decimals : ℕ) : JSString :=
  let fixed := Number.toFixed decimals value
  let parts := fixed.splitOn 46
  List.intercalate (js ".") (Regex.replaceAll groupPattern (js ",") (parts.headD []) :: parts.tail)

def isLabelUnit (u : CodeUnit) : Bool := isUpper u || isDigit u || u == 46 || u == 45

def display (symbol : JSString) : DisplayRule :=
  match displayRules.lookup symbol with
  | some known => known
  | none =>
    ⟨(Regex.replaceAll (.unit fun u => !isLabelUnit u) [] symbol).take 10, defaultDecimals⟩

/-- `typeof quote === 'object'`, null aside. -/
def isObject : Value → Bool
  | .obj _ | .arr _ => true
  | _ => false

def isTrue : Value → Bool
  | .bool b => b
  | _ => false

def shown (rule : DisplayRule) (ok price : Value) : JSString :=
  if isTrue ok then
    match parsePrice price with
    | .finite q =>
      if maxFormattable ≤ |q| then na else formatMoney (.finite q) rule.decimals
    | _ => na
  else na

def symbolOf (ticker : Value) : Except Fault JSString :=
  match ticker with
  | .undefined | .null => .ok []
  | v => (Value.toText v).map fun s => toUpperCase (trim s)

def segment (quote : Value) : Except Fault JSString := do
  if !isObject quote then return na
  let symbol ← symbolOf (← Value.property quote (js "ticker"))
  let rule := display symbol
  if rule.label = [] then return na
  return rule.label ++ js " " ++
    shown rule (← Value.property quote (js "ok")) (← Value.property quote (js "price"))

def summaryLine (quotes : List Value) : Except Fault JSString :=
  if quotes = [] then .ok emptyWatchlistMessage
  else do return List.intercalate separator (← quotes.mapM segment)

/-- An array slot that is not null and not false reads its ok field. -/
def failed (quote : Value) : Bool :=
  !quote.truthy || !(match Value.property quote (js "ok") with
    | .ok v => isTrue v
    | .error _ => false)

def allFailed (quotes : List Value) : Bool := quotes ≠ [] && quotes.all failed

example : formatMoney (Number.ofText (js "1234567.895")) 2 = js "1,234,567.90" := by decide +kernel

end Spazito.Formatter
