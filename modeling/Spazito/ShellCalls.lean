import Spazito.CommandHandler
import Spazito.PlatformRuns
import Spazito.Scheduler
import Spazito.ScriptCalls

set_option autoImplicit false

/-!
# The two entry points and the procedure they send by

Each is restated with `SmsService.send` as a parameter.
-/
namespace Spazito
open Ecma Script

variable [Platform]

namespace SmsService

theorem send_neverThrows : Prog.NeverThrows host send := by
  intro message w
  unfold send
  rw [Prog.tryCatch_eq, Prog.run_catchWith, Result.orElse]
  split
  · next outcome hout => exact ⟨outcome, hout⟩
  · exact ⟨.failed, rfl⟩

end SmsService

namespace Scheduler

def dailyRunWith (send : JSString → Action SmsService.Outcome) : Action Unit := do
  Config.validateForAlert
  if ← Watchlist.isPaused then
    console .log (js "Alerts are paused — daily run skipped, nothing sent.")
  else
    let tickers ← Watchlist.tickers
    let quotes ← PriceService.quotesFor tickers
    let slots := quotes.map PriceService.Quote.toValue
    consoleIf (Formatter.allFailed slots = true) .error
      (js "Every ticker failed this run — Alpha Vantage is down, rate-limited, or the " ++
      js "API key is bad. See the per-ticker warnings above; the n/a message was still sent.")
    let message ← eval (Formatter.summaryLine slots)
    let signed ← Signer.sign message
    let _ ← send signed

def runDailyAlertWith (send : JSString → Action SmsService.Outcome) : Action Unit :=
  tryCatch (dailyRunWith send) fun e => do
    let details := Redactor.scrubText (e.message ++ js "\n" ++ Platform.stack e)
    console .error (js "Daily alert run failed: " ++ details)
    throw (newError (js "Daily alert run failed: " ++ Redactor.scrubText e.message))

theorem runDailyAlert_eq : runDailyAlert = runDailyAlertWith SmsService.send := rfl

end Scheduler

namespace CommandHandler

def answerWith (send : JSString → Action SmsService.Outcome) (e : Option WebhookEvent) :
    Action Unit := do
  Config.validateForWebhook
  let reply ← commands (CommandParser.parse (bodyOf e))
  let _ ← send reply

def handleWith (send : JSString → Action SmsService.Outcome) (e : Option WebhookEvent) :
    Action JSString := do
  let auth ← SecurityGate.authorize e
  if !auth.allowed then
    if auth.justSealed then
      let _ ← send Replies.sealedNotice
      return emptyOk
    else return emptyOk
  else
    answerWith send e
    return emptyOk

def doPostWith (e : Option WebhookEvent) (send : JSString → Action SmsService.Outcome) :
    Action JSString :=
  tryCatch (handleWith send e) fun err => do
    console .error (js "doPost failed: " ++ Redactor.scrubText err.message)
    return emptyOk

theorem doPost_eq (e : Option WebhookEvent) : doPost e = doPostWith e SmsService.send := rfl

end CommandHandler
end Spazito
