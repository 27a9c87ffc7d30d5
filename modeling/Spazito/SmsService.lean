import Spazito.Config
import Spazito.Redactor

set_option autoImplicit false

/-! # SmsService.js: one text to the recipient -/
namespace Spazito.SmsService
open Ecma Script

inductive Outcome
  | sent
  | debug
  | failed
  deriving DecidableEq

def apiHost : JSString := js "https://api.twilio.com"
def apiVersion : JSString := js "2010-04-01"
def maxErrorLogChars : ℕ := 200

structure ErrorBody where
  code : JSString
  message : Value

/-- `parsed.message || ''`, and the code as text; any exception keeps the start of the body. -/
def parseErrorBody (text : JSString) : ErrorBody :=
  let fields : Except Fault ErrorBody := do
    match Value.parse text with
    | none => .error (.jsonSyntax text)
    | some parsed =>
      let code ← Value.toText (← Value.property parsed (js "code"))
      let message ← Value.property parsed (js "message")
      return ⟨code, if message.truthy then message else .str []⟩
  match fields with
  | .ok body => body
  | .error _ => ⟨js "unknown", .str (text.take maxErrorLogChars)⟩

def receiptLine (receipt : Value) : Except Fault JSString := do
  let sid ← Value.toText (← Value.property receipt (js "sid"))
  let status ← Value.toText (← Value.property receipt (js "status"))
  let segments ← Value.toText (← Value.property receipt (js "num_segments"))
  return js "SMS handed to Twilio, sid " ++ sid ++ js ", status " ++ status ++
    js ", segments " ++ segments

def url (accountSid : JSString) : Except Fault JSString :=
  match encodeURIComponent accountSid with
  | some sid => .ok (apiHost ++ js "/" ++ apiVersion ++ js "/Accounts/" ++ sid ++
      js "/Messages.json")
  | none => .error .malformedURI

variable [Platform]

/-- What the answer of Twilio comes to. -/
def readResponse (response : Response) : Action Outcome := do
  if 200 ≤ response.code ∧ response.code < 300 then
    match Value.parse response.body with
    | none => throw (Platform.faultError (.jsonSyntax response.body))
    | some receipt =>
      console .log (← eval (receiptLine receipt))
      return .sent
  else
    let errorBody := parseErrorBody response.body
    if errorBody.code = js "21610" then
      console .error (js "Twilio 21610: the recipient has OPTED OUT at the carrier level " ++
        js "(texted STOP). All sends are blocked until they text START. This is not an outage.")
      return .failed
    else
      console .error (js "Twilio send failed: HTTP " ++ decimal response.code ++ js ", code " ++
        errorBody.code ++ js ": " ++ (← eval (Redactor.scrub errorBody.message)))
      return .failed

def deliver (message : JSString) : Action Outcome := do
  let accountSid ← Config.require .twilioSid
  let authSecret ← Config.require .twilioAuthToken
  let apiKeySid ← Config.optional .twilioApiKeySid
  let username := apiKeySid.getD accountSid
  consoleIf (apiKeySid = none) .warn (js "SmsService is authenticating with the master Auth Token. " ++
    js "Prefer a scoped API key: set TWILIO_API_KEY_SID (ADR 008 §5, SCHEMA.md).")
  let url ← eval (url accountSid)
  let recipient ← Config.require .recipientNumber
  let number ← Config.require .twilioFromNumber
  let response ← fetch ⟨.post, url, [(js "To", recipient), (js "From", number), (js "Body", message)],
    [(js "Authorization", js "Basic " ++
      Platform.base64Encode (username ++ js ":" ++ authSecret))]⟩
  readResponse response

def send (message : JSString) : Action Outcome :=
  tryCatch
    (do
      if ← Config.isDebugMode then
        console .log (js "DEBUG_MODE — SMS not sent. Message: " ++ message)
        return .debug
      else deliver message)
    fun e => do
      console .error (js "Twilio send failed: " ++ Redactor.scrubText e.message)
      return .failed

end Spazito.SmsService
