import Spazito.PriceService
import Spazito.Replies
import Spazito.SecurityGate
import Spazito.SmsService
import Spazito.Watchlist

set_option autoImplicit false

/-! # CommandHandler.js: the inbound webhook -/
namespace Spazito.CommandHandler
open Ecma Script

def emptyOk : JSString := []

def argValue : Option JSString → Value
  | none => .null
  | some s => .str s

/-- A lookup in a table of replies that has no entry for the status. -/
def noReply : Action JSString :=
  throw ⟨js "TypeError", js "replies[result.status] is not a function"⟩

variable [Platform]

def add (rawArg : Option JSString) : Action JSString := do
  if !(← eval (Tickers.isValid (argValue rawArg))) then return Replies.invalidTicker rawArg
  else
    let ticker ← eval (Tickers.normalize (argValue rawArg))
    if ← Watchlist.has (.str ticker) then return Replies.duplicate ticker
    else if ← Watchlist.isFull then return Replies.atCap Watchlist.maxTickers
    else
      match ← PriceService.quotesFor [ticker] with
      | [] => throw (Platform.faultError (.nullishProperty (js "ok")))
      | quote :: _ =>
        match quote.result with
        | .error .noQuote => return Replies.unknownSymbol ticker
        | .error _ => return Replies.serviceUnreachable
        | .ok _ =>
          match ← Watchlist.add (.str ticker) with
          | .added ticker tickers => return Replies.added ticker tickers
          | .duplicate ticker _ => return Replies.duplicate ticker
          | .atCap _ _ => return Replies.atCap Watchlist.maxTickers
          | .invalid ticker => return Replies.invalidTicker (some ticker)
          | .busy => return Replies.busy
          | _ => noReply

def remove (rawArg : Option JSString) : Action JSString := do
  if !(← eval (Tickers.isValid (argValue rawArg))) then return Replies.invalidTicker rawArg
  else
    match ← Watchlist.remove (argValue rawArg) with
    | .removed ticker tickers nowEmpty => return Replies.removed ticker tickers nowEmpty
    | .notFound ticker _ => return Replies.notTracking ticker
    | .busy => return Replies.busy
    | _ => noReply

omit [Platform] in
def setPaused (paused : Bool) : Action JSString := do
  match ← Watchlist.setPaused paused with
  | .paused => return Replies.paused
  | .resumed => return Replies.resumed
  | .busy => return Replies.busy
  | _ => noReply

def commands (intent : CommandParser.Intent) : Action JSString :=
  match intent.type with
  | .add => add intent.arg
  | .remove => remove intent.arg
  | .pause => setPaused true
  | .resume => setPaused false
  | .list => do return Replies.list (← Watchlist.tickers) (← Watchlist.isPaused)
  | .help => return Replies.help
  | .log => do eval (Replies.auditLog (← SecurityVault.recentAudit 8))
  | .unlock => return Replies.unlocked

/-- The body of a request without parameters is the empty string. -/
def bodyOf (e : Option WebhookEvent) : Value :=
  match e.bind (·.parameter) with
  | some params => Value.ofOption params.body
  | none => .str []

/-- An allowed request, from the configuration check to the reply. -/
def answer (e : Option WebhookEvent) : Action Unit := do
  Config.validateForWebhook
  let reply ← commands (CommandParser.parse (bodyOf e))
  let _ ← SmsService.send reply

/-- The body of the try block. -/
def handle (e : Option WebhookEvent) : Action JSString := do
  let auth ← SecurityGate.authorize e
  if !auth.allowed then
    if auth.justSealed then
      let _ ← SmsService.send Replies.sealedNotice
      return emptyOk
    else return emptyOk
  else
    answer e
    return emptyOk

def doPost (e : Option WebhookEvent) : Action JSString :=
  tryCatch (handle e) fun err => do
    console .error (js "doPost failed: " ++ Redactor.scrubText err.message)
    return emptyOk

end Spazito.CommandHandler
