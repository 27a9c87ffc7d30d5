import Spazito.Config
import Spazito.Redactor

set_option autoImplicit false

/-! # PriceService.js: quotes from Alpha Vantage -/
namespace Spazito.PriceService
open Ecma Script

def minCallSpacingMs : ℕ := 15000
def maxTickersPerRun : ℕ := 10
def rateLimitKeys : List JSString := [js "Note", js "Information"]
def errorMessageKey : JSString := js "Error Message"

inductive Reason
  | noQuote
  | rateLimited
  | apiError
  | badPrice
  | fetchError
  deriving DecidableEq

def Reason.text : Reason → JSString
  | noQuote => js "no_quote"
  | rateLimited => js "rate_limited"
  | apiError => js "api_error"
  | badPrice => js "bad_price"
  | fetchError => js "fetch_error"

def quoteField : JSString := js "Global Quote"
def priceField : JSString := js "05. price"
def tradingDayField : JSString := js "07. latest trading day"
def apiHost : JSString := js "https://www.alphavantage.co"

structure Quote where
  ticker : JSString
  result : Except Reason JSString
  deriving DecidableEq

def Quote.ok (q : Quote) : Bool := q.result.isOk

def Quote.isRateLimited (q : Quote) : Bool :=
  match q.result with
  | .error .rateLimited => true
  | _ => false

/-- The object that the formatter is given. -/
def Quote.toValue (q : Quote) : Value :=
  match q.result with
  | .ok price => .obj [(js "ticker", .str q.ticker), (js "price", .str price), (js "ok", .bool true)]
  | .error reason => .obj [(js "ticker", .str q.ticker), (js "price", .null), (js "ok", .bool false),
      (js "reason", .str reason.text)]

def failure (ticker : JSString) (reason : Reason) : Quote := ⟨ticker, .error reason⟩

def url (ticker apiKey : JSString) : Except Fault JSString := do
  let symbol ← orMalformed (encodeURIComponent ticker)
  let key ← orMalformed (encodeURIComponent apiKey)
  return apiHost ++ js "/query?function=GLOBAL_QUOTE" ++ js "&symbol=" ++ symbol ++
    js "&apikey=" ++ key
where
  orMalformed : Option JSString → Except Fault JSString
    | some s => .ok s
    | none => .error .malformedURI

def firstKey (body : Value) : List JSString → Except Fault (Option JSString)
  | [] => return none
  | key :: keys => do
    if ← Value.hasProperty key body then return some key else firstKey body keys

/-- `quote && quote[PRICE]` -/
def priceOf (quote : Value) : Except Fault Value :=
  if quote.truthy then Value.property quote priceField else .ok quote

variable [Platform]

/-- What a body of status 200 says about the ticker. -/
def readBody (ticker : JSString) (body : Value) : Action Quote := do
  match ← eval (firstKey body rateLimitKeys) with
  | some key =>
    console .warn (js "Alpha Vantage rate-limit envelope (\"" ++ key ++ js "\") for " ++ ticker)
    return failure ticker .rateLimited
  | none =>
    if ← eval (Value.hasProperty errorMessageKey body) then
      let message ← eval (do Redactor.scrub (← Value.property body errorMessageKey))
      console .warn (js "Alpha Vantage rejected the request for " ++ ticker ++ js ": " ++ message)
      return failure ticker .apiError
    else
      let quote ← eval (Value.property body quoteField)
      let price ← eval (priceOf quote)
      if !price.truthy then
        console .warn (js "Alpha Vantage has no quote for " ++ ticker)
        return failure ticker .noQuote
      else if !(← eval (Value.toNumber price)).isFinite then
        console .warn (js "Alpha Vantage returned an unusable price for " ++ ticker)
        return failure ticker .badPrice
      else
        let day ← eval (do Value.toText (← Value.property quote tradingDayField))
        console .log (js "Alpha Vantage " ++ ticker ++ js " latest trading day: " ++ day)
        return ⟨ticker, .ok (← eval (Value.toText price))⟩

def fetchQuote (ticker apiKey : JSString) : Action Quote := do
  let url ← eval (url ticker apiKey)
  let response ← fetch ⟨.get, url, [], []⟩
  if response.code ≠ 200 then
    console .warn (js "Alpha Vantage HTTP " ++ decimal response.code ++ js " for " ++ ticker)
    return failure ticker .fetchError
  else
    match Value.parse response.body with
    | none => throw (Platform.faultError (.jsonSyntax response.body))
    | some body => readBody ticker body

/-- One call, fully contained: every exception becomes a failed quote. -/
def quote (ticker apiKey : JSString) : Action Quote :=
  tryCatch (fetchQuote ticker apiKey) fun e => do
    console .warn (js "Alpha Vantage fetch failed for " ++ ticker ++ js ": " ++
      Redactor.scrubText e.message)
    return failure ticker .fetchError

def spaceCalls (first : Bool) : Action Unit := if first then pure () else sleep minCallSpacingMs

/-- The loop of `quotesFor`; a rate-limited quote ends it without further calls. -/
def quotesLoop (apiKey : JSString) (first : Bool) : List JSString → Action (List Quote)
  | [] => return []
  | ticker :: rest => do
    spaceCalls first
    let q ← quote ticker apiKey
    if q.isRateLimited then
      console .warn (js "Rate limited at " ++ ticker ++ js "; not spending calls on the remaining " ++
        decimal rest.length ++ js " ticker(s).")
      return q :: rest.map fun t => failure t .rateLimited
    else return q :: (← quotesLoop apiKey false rest)

def quotesFor (tickers : List JSString) : Action (List Quote) := do
  if tickers = [] then return []
  else
    consoleIf (maxTickersPerRun < tickers.length) .error (js "quotesFor was given " ++
      decimal tickers.length ++ js " tickers — clamping to " ++ decimal maxTickersPerRun ++
      js " (ADR 007 budget). This indicates a bug upstream.")
    let apiKey ← Config.require .alphaVantageKey
    quotesLoop apiKey true (tickers.take maxTickersPerRun)

end Spazito.PriceService
