import Spazito.AuditTrail
import Spazito.BotState
import Spazito.Delivery

set_option autoImplicit false

/-!
# What the bot is for

The bot as its owner knows it: messages come in and the evening comes, one at a time; each is answered
by one text or by none. Nothing of the properties, the lock or the network is left but the price that
a ticker is quoted at.
-/
namespace Spazito
open Ecma Script

/-- All that a conversation has come to. The trail has every security event since the installation. -/
structure Desk where
  vault : Vault
  tracked : Watchlist.Tracked
  trail : List AuditEntry
  counter : ℕ

/-- A message, or the hour of the daily text, with the world outside at that time. -/
inductive Occasion
  | message (x : Visit)
  | evening (env : Env)

abbrev Prices := JSString → Except PriceService.Reason JSString

namespace Desk

def initial : Desk := ⟨.empty, .initial, [], 0⟩

/-! ## Commands -/

def wanted (arg : Option JSString) : JSString := Tickers.normalizeText (arg.getD [])

def answerAdd (a : Watchlist.Tracked) (prices : Prices) (arg : Option JSString) :
    CommandHandler.Reply × Watchlist.Tracked :=
  let ticker := wanted arg
  if hc : Tickers.Canonical ticker then
    if hold : a.tickers.contains ticker then (.duplicate ticker, a)
    else if hroom : a.tickers.length < Watchlist.maxTickers then
      let grown := a.roster.append ticker hc (mt List.contains_iff_mem.mpr hold) hroom
      match prices ticker with
      | .ok _ => (.added ticker grown.items, { a with roster := grown })
      | .error .noQuote => (.unknownSymbol ticker, a)
      | .error _ => (.serviceUnreachable, a)
    else (.atCap Watchlist.maxTickers, a)
  else (.invalidTicker arg, a)

def answerRemove (a : Watchlist.Tracked) (arg : Option JSString) :
    CommandHandler.Reply × Watchlist.Tracked :=
  let ticker := wanted arg
  if Tickers.Canonical ticker then
    if a.tickers.contains ticker then
      let rest := a.roster.drop ticker
      (.removed ticker rest.items (rest.items = []), { a with roster := rest })
    else (.notTracking ticker, a)
  else (.invalidTicker arg, a)

def answer (d : Desk) (prices : Prices) (intent : CommandParser.Intent) :
    CommandHandler.Reply × Watchlist.Tracked :=
  match intent.type with
  | .add => answerAdd d.tracked prices intent.arg
  | .remove => answerRemove d.tracked intent.arg
  | .pause => (.paused, { d.tracked with paused := true })
  | .resume => (.resumed, { d.tracked with paused := false })
  | .list => (.list d.tracked.tickers d.tracked.paused, d.tracked)
  | .help => (.help, d.tracked)
  | .log => (.auditLog ((d.trail.reverse.take 8).map auditEntry), d.tracked)
  | .unlock => (.unlocked, d.tracked)

/-! ## Messages -/

section

variable [Platform]

def gate (d : Desk) (s₀ : Store) (x : Visit) : SecurityGate.Decision × Vault :=
  d.vault.step (SecurityGate.showingOf (SecurityGate.paramsOf x.event) s₀) (x.env.clock 0) fun _ => true

def events (d : Desk) (s₀ : Store) (x : Visit) : List JSString :=
  d.vault.events (SecurityGate.showingOf (SecurityGate.paramsOf x.event) s₀) (x.env.clock 0)
    fun _ => true

def entered (d : Desk) (s₀ : Store) (x : Visit) (group : List AuditEntry) : Desk :=
  { d with vault := (d.gate s₀ x).2, trail := d.trail ++ group }

/-- The price of a ticker, from the answer to the first request. -/
def pricesIn (s₀ : Store) (env : Env) : Prices := fun ticker =>
  match PriceService.quotesFrom (s₀.secret .alphaVantageKey) [ticker] env with
  | [] => .error .fetchError
  | quote :: _ => quote.result

def reply (d : Desk) (s₀ : Store) (x : Visit) : CommandHandler.Reply × Watchlist.Tracked :=
  d.answer (pricesIn s₀ x.env) (CommandParser.parse (CommandHandler.bodyOf x.event))

/-- What a message makes of the desk, and the text that answers it. -/
inductive Hears (s₀ : Store) (x : Visit) (d : Desk) : Option JSString → Desk → Prop
  | answered {group : List AuditEntry} {text : JSString}
      (logged : SecurityGate.Appended (s₀.secret .verifierKey) x (d.events s₀ x) group)
      (allowed : (d.gate s₀ x).1.allowed = true)
      (worded : ((d.entered s₀ x group).reply s₀ x).1.text = .ok text) :
      Hears s₀ x d (some text)
        { d.entered s₀ x group with tracked := ((d.entered s₀ x group).reply s₀ x).2 }
  | refused {group : List AuditEntry}
      (logged : SecurityGate.Appended (s₀.secret .verifierKey) x (d.events s₀ x) group)
      (refused : (d.gate s₀ x).1.allowed = false) :
      Hears s₀ x d (if (d.gate s₀ x).1.justSealed then some Replies.sealedNotice else none)
        (d.entered s₀ x group)

/-! ## The evening -/

def evening (d : Desk) (s₀ : Store) (env : Env) : Option JSString × Desk :=
  if d.tracked.paused then (none, d)
  else
    let line := Scheduler.payload
      (PriceService.quotesFrom (s₀.secret .alphaVantageKey) d.tracked.tickers env)
    (some (Signer.signedText (s₀.secret .verifierKey) (countUp d.counter) line),
      { d with counter :=
          if s₀.secret .debugMode = js "true" then d.counter else countUp d.counter })

/-- A conversation: what is said at each occasion, and the desk after it. -/
inductive Talks (s₀ : Store) : Desk → List Occasion → List (Option JSString) → Desk → Prop
  | done (d : Desk) : Talks s₀ d [] [] d
  | message {d d₁ d₂ : Desk} {x : Visit} {said : Option JSString} {rest : List Occasion}
      {later : List (Option JSString)} (hears : d.Hears s₀ x said d₁)
      (talks : Talks s₀ d₁ rest later d₂) :
      Talks s₀ d (.message x :: rest) (said :: later) d₂
  | evening {d d₂ : Desk} {env : Env} {rest : List Occasion} {later : List (Option JSString)}
      (talks : Talks s₀ (d.evening s₀ env).2 rest later d₂) :
      Talks s₀ d (.evening env :: rest) ((d.evening s₀ env).1 :: later) d₂

end

end Desk
end Spazito
