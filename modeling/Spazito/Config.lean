import Spazito.Platform

set_option autoImplicit false

/-!
# Config.js and Locks.js: secrets, and the discipline of the script lock
-/
namespace Spazito
open Ecma Script

namespace Config

def alertKeys : List Key := [.alphaVantageKey, .twilioSid, .twilioAuthToken, .twilioFromNumber,
  .recipientNumber, .verifierKey]

def webhookKeys : List Key := [.alphaVantageKey, .twilioSid, .twilioAuthToken, .twilioFromNumber,
  .recipientNumber, .webhookToken, .verifierKey, .unlockSecret]

def requiredKeys : List Key := [.alphaVantageKey, .twilioSid, .twilioAuthToken, .twilioFromNumber,
  .recipientNumber, .webhookToken, .verifierKey, .unlockSecret]

def isMissing : Option JSString → Bool
  | none => true
  | some value => trim value = []

def missingError (keys : List Key) : JSError :=
  ⟨js "MissingConfigError",
    js "Missing Script Propert" ++ (if keys.length = 1 then js "y" else js "ies") ++ js ": " ++
    List.intercalate (js ", ") (keys.map Key.name) ++ js ". " ++
    js "Set in the Apps Script editor: Project Settings (gear icon) → Script Properties. " ++
    js "See doc/dev/SCHEMA.md for what each key is and where to get its value."⟩

def require (key : Key) : Action JSString := do
  let value ← getProperty key
  if isMissing value then throw (missingError [key])
  return trim (value.getD [])

def optional (key : Key) : Action (Option JSString) := do
  let value ← getProperty key
  return if isMissing value then none else some (trim (value.getD []))

def missing : List Key → Action (List Key)
  | [] => return []
  | key :: keys => do
    let value ← getProperty key
    let rest ← missing keys
    return if isMissing value then key :: rest else rest

def validate (keys : List Key) : Action Unit := do
  let absent ← missing keys
  if absent ≠ [] then throw (missingError absent)

def validateAll : Action Unit := validate requiredKeys
def validateForAlert : Action Unit := validate alertKeys
def validateForWebhook : Action Unit := validate webhookKeys

def isDebugMode : Action Bool := do
  return (← optional .debugMode) = some (js "true")

end Config

namespace Locks

/-- `mutate` inside the lock, which every exit releases; a timeout runs `onBusy` without it. -/
def withScriptLock {α : Type} (timeoutMs : ℕ) (mutate onBusy : Action α) : Action α := do
  if ← waitLock timeoutMs then mutate.andFinally releaseLock
  else
    console .warn (js "Could not acquire the script lock within " ++ decimal timeoutMs ++
      js "ms; taking the busy path.")
    onBusy

end Locks
end Spazito
