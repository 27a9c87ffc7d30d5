import Spazito.Formatter
import Spazito.PriceService
import Spazito.Signer
import Spazito.SmsService
import Spazito.Watchlist

set_option autoImplicit false

/-! # Scheduler.js: the daily alert -/
namespace Spazito.Scheduler
open Ecma Script

variable [Platform]

/-- The body of the try block. -/
def dailyRun : Action Unit := do
  Config.validateForAlert
  if ← Watchlist.isPaused then
    console .log (js "Alerts are paused — daily run skipped, nothing sent.")
  else
    let tickers ← Watchlist.tickers
    let quotes ← PriceService.quotesFor tickers
    let slots := quotes.map PriceService.Quote.toValue
    consoleIf (Formatter.allFailed slots = true) .error
      (js "Every ticker failed this run — Alpha Vantage is down, rate-limited, or the " ++
      js "API key is bad. See the per-ticker warnings above; the n/a message was still sent.")
    let message ← eval (Formatter.summaryLine slots)
    let signed ← Signer.sign message
    let _ ← SmsService.send signed

/-- A failed run is logged and thrown again, scrubbed both times. -/
def runDailyAlert : Action Unit :=
  tryCatch dailyRun fun e => do
    let details := Redactor.scrubText (e.message ++ js "\n" ++ Platform.stack e)
    console .error (js "Daily alert run failed: " ++ details)
    throw (newError (js "Daily alert run failed: " ++ Redactor.scrubText e.message))

end Spazito.Scheduler
