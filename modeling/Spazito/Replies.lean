import Spazito.EcmaJson
import Spazito.EcmaRegex

set_option autoImplicit false

/-! # core/Replies.js: the wording of every reply -/
namespace Spazito.Replies
open Ecma

def schedulePhrase : JSString := js "around 5pm on weekdays"

def joinComma (xs : List JSString) : JSString := List.intercalate (js ", ") xs

def help : JSString :=
  js "Spazito here! Text me: \"add TSLA\", \"remove TSLA\", \"list\", \"pause\", \"resume\", \"help\". " ++
  js "One ticker per message. (Use \"pause\", not STOP - STOP blocks all texts at the carrier " ++
  js "until you send START.)"

def added (ticker : JSString) (tickers : List JSString) : JSString :=
  js "Added " ++ ticker ++ js "! Now tracking: " ++ joinComma tickers ++ js "."

def duplicate (ticker : JSString) : JSString :=
  js "Already tracking " ++ ticker ++ js " — you're all set."

def atCap (max : ℕ) : JSString :=
  js "The watchlist is full (" ++ decimal max ++ js " tickers — the free data plan's limit). " ++
  js "Remove one first (\"remove TSLA\"), then add the new one."

def isEchoUnit (u : CodeUnit) : Bool := isUpper u || isLower u || isDigit u || u == 46 || u == 45

/-- `none` stands for undefined and for null. -/
def echo (raw : Option JSString) : JSString :=
  (Regex.replaceAll (.unit fun u => !isEchoUnit u) [] (raw.getD [])).take 12

def invalidTicker (raw : Option JSString) : JSString :=
  js "\"" ++ echo raw ++ js "\" doesn't look like a ticker symbol, so nothing was changed. " ++
  js "Try something like \"add TSLA\" or \"remove TSLA\"."

def unknownSymbol (ticker : JSString) : JSString :=
  js "Couldn't find " ++ ticker ++ js " — not added. Double-check the symbol?"

def serviceUnreachable : JSString :=
  js "The price service isn't answering right now, so nothing was changed. " ++
  js "Try again in a few minutes."

def removed (ticker : JSString) (tickers : List JSString) (nowEmpty : Bool) : JSString :=
  if nowEmpty then
    js "Removed " ++ ticker ++ js ". The watchlist is now EMPTY — no daily prices " ++
    js "until you add one back (\"add SPY\")."
  else js "Removed " ++ ticker ++ js ". Now tracking: " ++ joinComma tickers ++ js "."

def notTracking (ticker : JSString) : JSString :=
  js "Wasn't tracking " ++ echo (some ticker) ++
  js ", so nothing to remove. Text \"list\" to see the watchlist."

def paused : JSString := js "Daily prices paused. Text \"resume\" whenever you want them back."

def resumed : JSString :=
  js "Daily prices are back on — next text " ++ schedulePhrase ++ js "."

def list (tickers : List JSString) (paused : Bool) : JSString :=
  let state := if paused then js "paused — text \"resume\" to restart"
    else js "active, " ++ schedulePhrase
  if tickers = [] then
    js "The watchlist is empty (daily prices are " ++ state ++
    js "). Text \"add SPY\" to start tracking."
  else js "Tracking: " ++ joinComma tickers ++ js ". Daily prices are " ++ state ++ js "."

def busy : JSString :=
  js "Spazito is mid-change on another request — give it a few seconds and try again."

/-- One line of the security log: the month and day, the kind and the sender's hash. -/
def auditLine (entry : Value) : Except Fault JSString := do
  let t ← Value.property entry (js "t")
  let t ← Value.toText (if t.truthy then t else .str [])
  let k ← Value.toText (← Value.property entry (js "k"))
  let s ← Value.toText (← Value.property entry (js "s"))
  return (t.drop 5).take 5 ++ js " " ++ k ++ js " (" ++ s ++ js ")"

def auditLog (entries : List Value) : Except Fault JSString :=
  if entries = [] then .ok (js "Security log: empty. No blocked attempts on record.")
  else do
    let lines ← entries.mapM auditLine
    return js "Security log, newest first: " ++ List.intercalate (js " | ") lines

def unlocked : JSString := js "Spazito is unlocked and running. All good."

def sealedNotice : JSString :=
  js "🔒 Spazito sealed itself after repeated blocked requests and is ignoring all " ++
  js "commands. To re-arm it, text: unlock YOUR-SECRET (the unlock phrase from setup). " ++
  js "Daily prices continue as normal."

theorem echo_safe (raw : Option JSString) :
    (echo raw).length ≤ 12 ∧ ∀ u ∈ echo raw, isEchoUnit u = true := by
  rw [echo, Regex.replaceAll_unit]
  refine ⟨by simp, fun u hu => ?_⟩
  simpa using (List.mem_filter.mp (List.mem_of_mem_take hu)).2

end Spazito.Replies
