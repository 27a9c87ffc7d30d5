import Spazito.AppsScript
import Spazito.Reachable
import Spazito.RedactorFixpoint

set_option autoImplicit false

/-!
# What the validation up front spares

The programs with the failure of a required key as a parameter. After the validation no run depends
on it.
-/
namespace Spazito
open Ecma Script

/-! ## The failure as a parameter -/

namespace Config

/-- `require`, with what a missing key leads to left open. -/
def requireOr (absent : Key → Action JSString) (key : Key) : Action JSString := do
  let value ← getProperty key
  if isMissing value then absent key else return trim (value.getD [])

def throwMissing (key : Key) : Action JSString := throw (missingError [key])

theorem requireOr_throw : requireOr throwMissing = require := by
  funext key
  unfold requireOr require
  refine congrArg (Prog.bind (getProperty key)) (funext fun value => ?_)
  split_ifs <;> rfl

end Config

section Programs

variable [Platform] (absent : Key → Action JSString)

namespace PriceService

def quotesForOr (tickers : List JSString) : Action (List Quote) := do
  if tickers = [] then return []
  else
    consoleIf (maxTickersPerRun < tickers.length) .error (js "quotesFor was given " ++
      decimal tickers.length ++ js " tickers — clamping to " ++ decimal maxTickersPerRun ++
      js " (ADR 007 budget). This indicates a bug upstream.")
    let apiKey ← Config.requireOr absent .alphaVantageKey
    quotesLoop apiKey true (tickers.take maxTickersPerRun)

end PriceService

namespace Signer

def tagOr (sequence : Number) (payload : JSString) : Action JSString := do
  let canonical := sequence.toText ++ js "|" ++ payload
  return hexPrefix 4 (computeHmacSha256Signature canonical (← Config.requireOr absent .verifierKey))

def signOr (message : JSString) : Action JSString := do
  let payload := trim message
  match ← claim with
  | none =>
    console .warn (js "Signer: could not claim a sequence number (lock busy) — sending unsigned.")
    return payload
  | some sequence =>
    return payload ++ js " [#" ++ sequence.toText ++ js " " ++ (← tagOr absent sequence payload) ++
      js "]"

end Signer

namespace SmsService

def deliverOr (message : JSString) : Action Outcome := do
  let accountSid ← Config.requireOr absent .twilioSid
  let authSecret ← Config.requireOr absent .twilioAuthToken
  let apiKeySid ← Config.optional .twilioApiKeySid
  let username := apiKeySid.getD accountSid
  consoleIf (apiKeySid = none) .warn (js "SmsService is authenticating with the master Auth Token. " ++
    js "Prefer a scoped API key: set TWILIO_API_KEY_SID (ADR 008 §5, SCHEMA.md).")
  let url ← eval (url accountSid)
  let recipient ← Config.requireOr absent .recipientNumber
  let number ← Config.requireOr absent .twilioFromNumber
  let response ← fetch ⟨.post, url, [(js "To", recipient), (js "From", number), (js "Body", message)],
    [(js "Authorization", js "Basic " ++
      Platform.base64Encode (username ++ js ":" ++ authSecret))]⟩
  readResponse response

def sendOr (message : JSString) : Action Outcome :=
  tryCatch
    (do
      if ← Config.isDebugMode then
        console .log (js "DEBUG_MODE — SMS not sent. Message: " ++ message)
        return .debug
      else deliverOr absent message)
    fun e => do
      console .error (js "Twilio send failed: " ++ Redactor.scrubText e.message)
      return .failed

end SmsService

namespace Scheduler

def dailyRunOr : Action Unit := do
  Config.validateForAlert
  if ← Watchlist.isPaused then
    console .log (js "Alerts are paused — daily run skipped, nothing sent.")
  else
    let tickers ← Watchlist.tickers
    let quotes ← PriceService.quotesForOr absent tickers
    let slots := quotes.map PriceService.Quote.toValue
    consoleIf (Formatter.allFailed slots = true) .error
      (js "Every ticker failed this run — Alpha Vantage is down, rate-limited, or the " ++
      js "API key is bad. See the per-ticker warnings above; the n/a message was still sent.")
    let message ← eval (Formatter.summaryLine slots)
    let signed ← Signer.signOr absent message
    let _ ← SmsService.sendOr absent signed

def runDailyAlertOr : Action Unit :=
  tryCatch (dailyRunOr absent) fun e => do
    let details := Redactor.scrubText (e.message ++ js "\n" ++ Platform.stack e)
    console .error (js "Daily alert run failed: " ++ details)
    throw (newError (js "Daily alert run failed: " ++ Redactor.scrubText e.message))

end Scheduler

namespace CommandHandler

def addOr (rawArg : Option JSString) : Action JSString := do
  if !(← eval (Tickers.isValid (argValue rawArg))) then return Replies.invalidTicker rawArg
  else
    let ticker ← eval (Tickers.normalize (argValue rawArg))
    if ← Watchlist.has (.str ticker) then return Replies.duplicate ticker
    else if ← Watchlist.isFull then return Replies.atCap Watchlist.maxTickers
    else
      match ← PriceService.quotesForOr absent [ticker] with
      | [] => throw (Platform.faultError (.nullishProperty (js "ok")))
      | quote :: _ =>
        match quote.result with
        | .error .noQuote => return Replies.unknownSymbol ticker
        | .error _ => return Replies.serviceUnreachable
        | .ok _ =>
          match ← Watchlist.add (.str ticker) with
          | .added ticker tickers => return Replies.added ticker tickers
          | .duplicate ticker _ => return Replies.duplicate ticker
          | .atCap _ _ => return Replies.atCap Watchlist.maxTickers
          | .invalid ticker => return Replies.invalidTicker (some ticker)
          | .busy => return Replies.busy
          | _ => noReply

/-- No other command requires a key. -/
def commandsOr (intent : CommandParser.Intent) : Action JSString :=
  match intent.type with
  | .add => addOr absent intent.arg
  | _ => commands intent

def answerOr (e : Option WebhookEvent) : Action Unit := do
  Config.validateForWebhook
  let reply ← commandsOr absent (CommandParser.parse (bodyOf e))
  let _ ← SmsService.sendOr absent reply

/-- The gate comes before the validation and is as it was. -/
def handleOr (e : Option WebhookEvent) : Action JSString := do
  let auth ← SecurityGate.authorize e
  if !auth.allowed then
    if auth.justSealed then
      let _ ← SmsService.send Replies.sealedNotice
      return emptyOk
    else return emptyOk
  else
    answerOr absent e
    return emptyOk

def doPostOr (e : Option WebhookEvent) : Action JSString :=
  tryCatch (handleOr absent e) fun err => do
    console .error (js "doPost failed: " ++ Redactor.scrubText err.message)
    return emptyOk

end CommandHandler

/-! With the failure that the source has, they are the programs of the source. -/

theorem runDailyAlertOr_throw :
    Scheduler.runDailyAlertOr Config.throwMissing = Scheduler.runDailyAlert := by
  unfold Scheduler.runDailyAlertOr Scheduler.dailyRunOr PriceService.quotesForOr Signer.signOr
    Signer.tagOr SmsService.sendOr SmsService.deliverOr
  rw [Config.requireOr_throw]
  rfl

theorem doPostOr_throw (e : Option WebhookEvent) :
    CommandHandler.doPostOr Config.throwMissing e = CommandHandler.doPost e := by
  have hcommands (intent : CommandParser.Intent) :
      CommandHandler.commandsOr Config.throwMissing intent = CommandHandler.commands intent := by
    unfold CommandHandler.commandsOr CommandHandler.commands CommandHandler.addOr
      PriceService.quotesForOr
    rw [Config.requireOr_throw]
    cases intent.type <;> rfl
  unfold CommandHandler.doPostOr CommandHandler.handleOr CommandHandler.answerOr SmsService.sendOr
    SmsService.deliverOr
  rw [Config.requireOr_throw]
  simp only [hcommands]
  rfl

/-! ## After the validation -/

def Provided (keys : List Key) : (c : Cmd GAS) → c.Ret → Prop
  | .op (.getProperty k), value => k ∈ keys → Config.isMissing value = false
  | _, _ => True

section Alike

variable {keys : List Key}

omit [Platform] in
theorem alike_require {key : Key} (h : key ∈ keys) :
    Prog.AlikeOn (Provided keys) (Config.require key) (Config.requireOr absent key) := by
  rw [← Config.requireOr_throw]
  refine .perform _ fun value hvalue => ?_
  have hset : ¬ Config.isMissing value = true := Bool.not_eq_true _ ▸ hvalue h
  change Prog.AlikeOn _ (if Config.isMissing value = true then _ else _)
    (if Config.isMissing value = true then _ else _)
  rw [if_neg hset, if_neg hset]
  exact .refl _

theorem alike_quotesFor (h : .alphaVantageKey ∈ keys) (tickers : List JSString) :
    Prog.AlikeOn (Provided keys) (PriceService.quotesFor tickers)
      (PriceService.quotesForOr absent tickers) := by
  unfold PriceService.quotesFor PriceService.quotesForOr
  split_ifs
  · exact .refl _
  · exact (Prog.AlikeOn.refl _).bind fun _ => (alike_require absent h).bind fun _ => .refl _

theorem alike_sign (h : .verifierKey ∈ keys) (message : JSString) :
    Prog.AlikeOn (Provided keys) (Signer.sign message) (Signer.signOr absent message) := by
  refine (Prog.AlikeOn.refl _).bind fun sequence => ?_
  cases sequence with
  | none => exact .refl _
  | some sequence =>
    have htag (payload : JSString) : Prog.AlikeOn (Provided keys)
        (Signer.tag sequence payload) (Signer.tagOr absent sequence payload) :=
      (alike_require absent h).bind fun _ => .refl _
    exact (htag _).bind fun _ => .refl _

theorem alike_send (h : ∀ k ∈ [Key.twilioSid, .twilioAuthToken, .recipientNumber, .twilioFromNumber],
    k ∈ keys) (message : JSString) :
    Prog.AlikeOn (Provided keys) (SmsService.send message) (SmsService.sendOr absent message) := by
  have hdeliver : Prog.AlikeOn (Provided keys) (SmsService.deliver message)
      (SmsService.deliverOr absent message) := by
    refine (alike_require absent (h _ (by decide))).bind fun accountSid =>
      (alike_require absent (h _ (by decide))).bind fun authSecret =>
      (Prog.AlikeOn.refl _).bind fun apiKeySid => (Prog.AlikeOn.refl _).bind fun _ =>
      (Prog.AlikeOn.refl _).bind fun url => ?_
    exact (alike_require absent (h _ (by decide))).bind fun recipient =>
      (alike_require absent (h _ (by decide))).bind fun number => .refl _
  refine Prog.AlikeOn.catchWith ((Prog.AlikeOn.refl _).bind fun debug => ?_) fun e => .refl _
  split_ifs
  · exact .refl _
  · exact hdeliver

theorem alike_add (h : .alphaVantageKey ∈ keys) (rawArg : Option JSString) :
    Prog.AlikeOn (Provided keys) (CommandHandler.add rawArg) (CommandHandler.addOr absent rawArg) := by
  refine (Prog.AlikeOn.refl _).bind fun valid => ?_
  split_ifs
  · exact .refl _
  · refine (Prog.AlikeOn.refl _).bind fun ticker => (Prog.AlikeOn.refl _).bind fun known => ?_
    split_ifs
    · exact .refl _
    · refine (Prog.AlikeOn.refl _).bind fun full => ?_
      split_ifs
      · exact .refl _
      · exact (alike_quotesFor absent h _).bind fun quotes => .refl _

end Alike

omit [Platform] in
/-- A run that does not write the keys of the list, and finds them set, runs alike. -/
theorem run_alike {α : Type} {keys : List Key} {p q : Action α} {F : Footprint} {w : World}
    (hpq : Prog.AlikeOn (Provided keys) p q) (hp : p.Within F.allows)
    (hkept : ∀ k ∈ keys, ¬ F.writes k) (hset : ∀ k ∈ keys, Config.isMissing (w.store k) = false) :
    p.run host w = q.run host w := by
  refine hpq.run_eq (I := fun v => ∀ k ∈ keys, Config.isMissing (v.store k) = false) hp ?_ hset
  intro c v hc hv
  cases c with
  | waitLock _ | releaseLock => exact ⟨trivial, hv⟩
  | op o =>
    cases o with
    | getProperty k => exact ⟨hv k, hv⟩
    | fetch _ | sleep _ | now | console _ _ => exact ⟨trivial, hv⟩
    | setProperty k value =>
      refine ⟨trivial, fun k' hk' => ?_⟩
      have hne : k' ≠ k := fun h => hkept k' hk' (h ▸ hc)
      rw [host]
      cases v.env.write 0 with
      | none => exact (congrArg Config.isMissing (Store.set_ne v.store value hne)).trans (hv k' hk')
      | some e => exact hv k' hk'

omit [Platform] in
theorem run_validated {α : Type} {keys : List Key} {p q : Unit → Action α} {w : World}
    (h : (∀ k ∈ keys, Config.isMissing (w.store k) = false) →
      ((Config.validate keys).bind p).run host w = ((Config.validate keys).bind q).run host w) :
    ((Config.validate keys).bind p).run host w = ((Config.validate keys).bind q).run host w := by
  by_cases hnone : keys.filter (fun k => Config.isMissing (w.store k)) = []
  · refine h ?_
    simpa [List.filter_eq_nil_iff] using hnone
  · rw [Prog.run_bind, Prog.run_bind, run_validate, if_neg hnone]
    rfl

theorem runDailyAlert_alike (w : World) :
    (Scheduler.runDailyAlertOr absent).run host w = Scheduler.runDailyAlert.run host w := by
  have hrun : Scheduler.dailyRun.run host w = (Scheduler.dailyRunOr absent).run host w := by
    refine run_validated fun hset => run_alike ?_ Scheduler.within_dailyRun (by decide) hset
    refine (Prog.AlikeOn.refl _).bind fun _ => (Prog.AlikeOn.refl _).bind fun paused => ?_
    split_ifs
    · exact .refl _
    · refine (Prog.AlikeOn.refl _).bind fun tickers =>
        (alike_quotesFor absent (by decide) tickers).bind fun quotes => ?_
      exact (Prog.AlikeOn.refl _).bind fun _ => (Prog.AlikeOn.refl _).bind fun message =>
        (alike_sign absent (by decide) message).bind fun signed =>
          (alike_send absent (by decide) signed).bind fun _ => .refl _
  unfold Scheduler.runDailyAlertOr Scheduler.runDailyAlert
  rw [Prog.tryCatch_eq, Prog.tryCatch_eq, Prog.run_catchWith, Prog.run_catchWith, hrun]

theorem answer_alike (e : Option WebhookEvent) (w : World) :
    (CommandHandler.answer e).run host w = (CommandHandler.answerOr absent e).run host w := by
  have hwithin : (CommandHandler.answer e).Within
      (CommandHandler.replyFootprint fun _ => True).allows := by
    rw [CommandHandler.answer_eq]
    exact (Footprint.validate fun _ _ => trivial).bind fun _ =>
      (CommandHandler.within_reply_any _).bind fun _ => (Footprint.eval _).bind fun _ =>
        (SmsService.within_send (fun _ _ => trivial) fun _ _ => trivial).bind fun _ => trivial
  refine run_validated fun hset => run_alike ?_ hwithin (by decide) hset
  have hcommands (intent : CommandParser.Intent) :
      Prog.AlikeOn (Provided Config.webhookKeys) (CommandHandler.commands intent)
        (CommandHandler.commandsOr absent intent) := by
    unfold CommandHandler.commandsOr CommandHandler.commands
    cases intent.type with
    | add => exact alike_add absent (by decide) intent.arg
    | remove | pause | resume | list | help | log | unlock => exact .refl _
  exact (Prog.AlikeOn.refl _).bind fun _ => (hcommands _).bind fun reply =>
    (alike_send absent (by decide) reply).bind fun _ => .refl _

theorem doPost_alike (e : Option WebhookEvent) (w : World) :
    (CommandHandler.doPostOr absent e).run host w = (CommandHandler.doPost e).run host w := by
  have hrun : (CommandHandler.handleOr absent e).run host w = (CommandHandler.handle e).run host w := by
    unfold CommandHandler.handleOr CommandHandler.handle
    simp only [Prog.bind_eq, Prog.run_bind]
    refine congrArg _ (funext fun auth => funext fun v => ?_)
    split_ifs
    · rfl
    · rfl
    · rw [Prog.run_bind, Prog.run_bind, answer_alike absent]
  unfold CommandHandler.doPostOr CommandHandler.doPost
  rw [Prog.tryCatch_eq, Prog.tryCatch_eq, Prog.run_catchWith, Prog.run_catchWith, hrun]

/-! ## A missing key -/

omit [Platform] in
theorem outcome_validate (keys : List Key) (w : World) :
    ((Config.validate keys).run host w).outcome = .ok () ↔
      ∀ k ∈ keys, Config.isMissing (w.store k) = false := by
  have hnone : keys.filter (fun k => Config.isMissing (w.store k)) = [] ↔
      ∀ k ∈ keys, Config.isMissing (w.store k) = false := by
    simp [List.filter_eq_nil_iff]
  rw [run_validate, ← hnone]
  split_ifs with h
  · exact ⟨fun _ => h, fun _ => rfl⟩
  · exact ⟨by rintro ⟨⟩, fun h' => absurd h' h⟩

omit [Platform] in
/-- The check of a deployment passes exactly if those of the daily run and of a request do. -/
theorem validateAll_iff (w : World) : (Config.validateAll.run host w).outcome = .ok () ↔
    (Config.validateForAlert.run host w).outcome = .ok () ∧
      (Config.validateForWebhook.run host w).outcome = .ok () := by
  unfold Config.validateAll Config.validateForAlert Config.validateForWebhook
  rw [outcome_validate, outcome_validate, outcome_validate]
  have halert : ∀ k ∈ Config.alertKeys, k ∈ Config.requiredKeys := by decide
  exact ⟨fun h => ⟨fun k hk => h k (halert k hk), h⟩, And.right⟩

omit [Platform] in
theorem contains_name {k : Key} {keys : List Key} (h : k ∈ keys) :
    k.name <:+: (Config.missingError keys).message := by
  have hlist : k.name <:+: List.intercalate (js ", ") (keys.map Key.name) := by
    cases keys with
    | nil => simp at h
    | cons first rest =>
      rw [List.map_cons, intercalate_cons]
      rcases List.mem_cons.mp h with rfl | h
      · exact (List.prefix_append _ _).isInfix
      · obtain ⟨before, after, rfl⟩ := List.append_of_mem h
        refine ⟨first.name ++ (before.map Key.name).flatMap (js ", " ++ ·) ++ js ", ",
          (after.map Key.name).flatMap (js ", " ++ ·), ?_⟩
        simp
  have hinside (a l b c d : JSString) : l <:+: a ++ l ++ b ++ c ++ d := ⟨a, b ++ c ++ d, by simp⟩
  exact hlist.trans (hinside _ _ _ _ _)

omit [Platform] in
theorem scrubText_missing (keys : List Key) (h : keys.Sublist Config.alertKeys) :
    Redactor.scrubText (Config.missingError keys).message = (Config.missingError keys).message := by
  have hplain : ∀ keys ∈ Config.alertKeys.sublists,
      ((Config.missingError keys).message.splitOn 32).all Redactor.isPlainWord = true := by
    decide +kernel
  exact Redactor.scrubText_of_plain (hplain keys (List.mem_sublists.mpr h))

theorem runDailyAlert_missing (w : World)
    (h : Config.alertKeys.filter (fun k => Config.isMissing (w.store k)) ≠ []) :
    ∃ log, Scheduler.runDailyAlert.run host w = ⟨.error (newError (js "Daily alert run failed: " ++
      (Config.missingError (Config.alertKeys.filter fun k => Config.isMissing (w.store k))).message)), w,
      (Config.alertKeys.map fun k => .op (.getProperty k)) ++ [.op (.console .error log)]⟩ := by
  have hfixed := scrubText_missing _
    (List.filter_sublist (p := fun k => Config.isMissing (w.store k)) (l := Config.alertKeys))
  unfold Scheduler.runDailyAlert Scheduler.dailyRun Config.validateForAlert
  rw [Prog.tryCatch_eq, Prog.run_catchWith, Prog.bind_eq, Prog.run_bind, run_validate, if_neg h,
    Result.andThen_error, Result.orElse_error]
  generalize Config.missingError (Config.alertKeys.filter fun k => Config.isMissing (w.store k)) = e
    at hfixed ⊢
  refine ⟨js "Daily alert run failed: " ++
    Redactor.scrubText (e.message ++ js "\n" ++ Platform.stack e), ?_⟩
  dsimp only
  rw [hfixed]
  rfl

/-- The validation is complete. A required key that is missing may lead to anything: neither the daily
run nor a request can tell, so that none is missing once the validation has passed. And without a key
of its own the daily run fails, naming it, before it writes or asks for anything. -/
theorem validation_complete (e : Option WebhookEvent) (w : World) :
    (Scheduler.runDailyAlertOr absent).run host w = Scheduler.runDailyAlert.run host w ∧
    (CommandHandler.doPostOr absent e).run host w = (CommandHandler.doPost e).run host w ∧
    ((∃ k ∈ Config.alertKeys, Config.isMissing (w.store k) = true) → ∃ message,
      (Scheduler.runDailyAlert.run host w).outcome = .error (newError message) ∧
      (∀ k ∈ Config.alertKeys, Config.isMissing (w.store k) = true → k.name <:+: message) ∧
      ∀ c ∈ (Scheduler.runDailyAlert.run host w).performed, Footprint.readOnly.allows c) := by
  refine ⟨runDailyAlert_alike absent w, doPost_alike absent e w, ?_⟩
  rintro ⟨k, hk, hmissing⟩
  obtain ⟨log, hrun⟩ := runDailyAlert_missing w
    (List.ne_nil_of_mem (List.mem_filter.mpr ⟨hk, hmissing⟩))
  rw [hrun]
  refine ⟨_, rfl, fun k hk hmissing => ?_, fun c hc => ?_⟩
  · exact (contains_name (List.mem_filter.mpr ⟨hk, hmissing⟩)).trans (List.suffix_append _ _).isInfix
  · rcases List.mem_append.mp hc with hc | hc
    · obtain ⟨k, -, rfl⟩ := List.mem_map.mp hc
      trivial
    · obtain rfl := List.mem_singleton.mp hc
      trivial

end Programs

section Sample
open AppsScript

theorem validation_complete_unset : ∃ message,
    (Scheduler.runDailyAlert.run host ⟨fun _ => none, sampleEnv⟩).outcome =
      .error (newError message) ∧ js "VERIFIER_KEY" <:+: message := by
  obtain ⟨-, -, hfails⟩ := validation_complete Config.throwMissing none ⟨fun _ => none, sampleEnv⟩
  obtain ⟨message, hout, hnames, -⟩ := hfails ⟨.verifierKey, by decide, rfl⟩
  exact ⟨message, hout, hnames .verifierKey (by decide) rfl⟩

end Sample

end Spazito
