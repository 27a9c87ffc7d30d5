import Spazito.Config
import Spazito.Tickers

set_option autoImplicit false

/-! # Watchlist.js: the owner of the tickers and of the paused flag -/
namespace Spazito.Watchlist
open Ecma Script

def maxTickers : ℕ := 10
def lockTimeoutMs : ℕ := 5000
def defaultTickers : List JSString := [js "SPY", js "GLD", js "SLV"]

/-- What a mutation came to: its status with the fields that go with it. -/
inductive Outcome
  | added (ticker : JSString) (tickers : List JSString)
  | duplicate (ticker : JSString) (tickers : List JSString)
  | atCap (ticker : JSString) (tickers : List JSString)
  | invalid (ticker : JSString)
  | removed (ticker : JSString) (tickers : List JSString) (nowEmpty : Bool)
  | notFound (ticker : JSString) (tickers : List JSString)
  | paused
  | resumed
  | busy
  deriving DecidableEq

/-- The valid entries in canonical form, each once, in the order of their first occurrences. -/
def heal (clean : List JSString) : List Value → Except Fault (List JSString)
  | [] => return clean
  | entry :: entries => do
    let ticker ← Tickers.normalize entry
    let valid ← Tickers.isValid (.str ticker)
    if !valid || clean.contains ticker then heal clean entries
    else heal (clean ++ [ticker]) entries

section
variable [Platform]

def corrupted (message raw : JSString) : Action (List JSString) := do
  console .warn (js "WATCHLIST property is corrupted (" ++ message ++
    js "); using the default list. " ++ js "Stored value: " ++ raw)
  return defaultTickers

def tickers : Action (List JSString) := do
  match ← getProperty .watchlist with
  | none => return defaultTickers
  | some raw =>
    match Value.parse raw with
    | none => corrupted (Platform.faultError (.jsonSyntax raw)).message raw
    | some (.arr parsed) =>
      let clean ← eval (heal [] parsed)
      consoleIf (clean.length ≠ parsed.length) .warn (js "WATCHLIST contained " ++
        decimal (parsed.length - clean.length) ++
        js " invalid/duplicate entr(ies); they were ignored. Stored value: " ++ raw)
      consoleIf (maxTickers < clean.length) .warn (js "WATCHLIST held " ++ decimal clean.length ++
        js " tickers — using only the first " ++ decimal maxTickers ++ js " (ADR 007 cap).")
      return clean.take maxTickers
    | some _ => corrupted (js "WATCHLIST is not an array") raw

def has (rawTicker : Value) : Action Bool := do
  let tracked ← tickers
  return tracked.contains (← eval (Tickers.normalize rawTicker))

def isFull : Action Bool := do
  return maxTickers ≤ (← tickers).length

end

def isPaused : Action Bool := do
  return (← getProperty .paused) = some (js "true")

def store (tickerList : List JSString) : Action Unit :=
  setProperty .watchlist (Value.stringify (.arr (tickerList.map .str)))

def withLock (mutate : Action Outcome) : Action Outcome :=
  Locks.withScriptLock lockTimeoutMs mutate (return .busy)

def setPaused (paused : Bool) : Action Outcome :=
  withLock do
    setProperty .paused (if paused then js "true" else js "false")
    return if paused then .paused else .resumed

variable [Platform]

def add (rawTicker : Value) : Action Outcome := do
  let ticker ← eval (Tickers.normalize rawTicker)
  if !(← eval (Tickers.isValid (.str ticker))) then return .invalid ticker
  else withLock do
    let current ← tickers
    if current.contains ticker then return .duplicate ticker current
    else if maxTickers ≤ current.length then return .atCap ticker current
    else
      let updated := current ++ [ticker]
      store updated
      return .added ticker updated

def remove (rawTicker : Value) : Action Outcome := do
  let ticker ← eval (Tickers.normalize rawTicker)
  withLock do
    let current ← tickers
    if !current.contains ticker then return .notFound ticker current
    else
      let updated := current.filter (· ≠ ticker)
      store updated
      return .removed ticker updated (updated = [])

end Spazito.Watchlist
