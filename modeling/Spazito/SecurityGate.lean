import Spazito.CommandParser
import Spazito.SecureCompare
import Spazito.SecurityVault

set_option autoImplicit false

/-! # SecurityGate.js: may this request act? -/
namespace Spazito
open Ecma Script

/-- The fields of a webhook request that the program reads; each may be absent. -/
structure Parameters where
  k : Option JSString
  sender : Option JSString
  body : Option JSString
  messageSid : Option JSString

/-- The event object; a call without parameters has none. -/
structure WebhookEvent where
  parameter : Option Parameters

namespace SecurityGate

structure Decision where
  allowed : Bool
  justSealed : Bool
  deriving DecidableEq

/-- `(e && e.parameter) || {}` -/
def paramsOf (e : Option WebhookEvent) : Parameters :=
  (e.bind (·.parameter)).getD ⟨none, none, none, none⟩

def matchesToken (params : Parameters) : Action Bool := do
  return SecureCompare.equals (.str (params.k.getD [])) (.str (← Config.require .webhookToken))

def matchesRecipient (params : Parameters) : Action Bool := do
  return SecureCompare.equals (.str (params.sender.getD []))
    (.str (← Config.require .recipientNumber))

variable [Platform]

def tryUnseal (params : Parameters) : Action Bool := do
  let intent := CommandParser.parse (Value.ofOption params.body)
  let arg := intent.arg.getD []
  if intent.type ≠ .unlock ∨ arg = [] then return false
  else
    let secretOk := SecureCompare.equals (.str arg) (.str (← Config.require .unlockSecret))
    let tokenOk ← matchesToken params
    let fromOk ← matchesRecipient params
    if !(secretOk && tokenOk && fromOk) then return false
    else if ← SecurityVault.checkAndRecordSid (Value.ofOption params.messageSid) then return false
    else if !(← SecurityVault.unsealBot params.sender) then return false
    else
      console .log (js "SecurityGate: unlock accepted — the bot is re-armed.")
      return true

def authorize (e : Option WebhookEvent) : Action Decision := do
  let params := paramsOf e
  if ← SecurityVault.isSealed then
    if ← tryUnseal params then
      SecurityVault.resetFailures
      return ⟨true, false⟩
    else return ⟨false, false⟩
  else
    let tokenOk ← matchesToken params
    let fromOk ← matchesRecipient params
    if !(tokenOk && fromOk) then
      console .warn (js "Webhook request rejected by the security gate (silent 200 returned).")
      if tokenOk then
        let failure ← SecurityVault.registerFailure params.sender
        return ⟨false, failure.justSealed⟩
      else return ⟨false, false⟩
    else if ← SecurityVault.checkAndRecordSid (Value.ofOption params.messageSid) then
      console .warn (js "Webhook request rejected: repeated or missing MessageSid " ++
        js "(replay protection).")
      SecurityVault.recordAudit (js "replay") params.sender
      return ⟨false, false⟩
    else
      SecurityVault.resetFailures
      return ⟨true, false⟩

end SecurityGate
end Spazito
