import Spazito.SecurityVault

set_option autoImplicit false

/-! # Signer.js: the authentication block -/
namespace Spazito.Signer
open Ecma Script

variable [Platform]

def tag (sequence : Number) (payload : JSString) : Action JSString := do
  let canonical := sequence.toText ++ js "|" ++ payload
  return hexPrefix 4 (computeHmacSha256Signature canonical (← Config.require .verifierKey))

omit [Platform] in
/-- The number for this message; debug mode looks at the next one without claiming it. -/
def claim : Action (Option Number) := do
  if ← Config.isDebugMode then
    return some (Number.add (← SecurityVault.currentSequence) (.finite 1))
  else SecurityVault.nextSequence

def sign (message : JSString) : Action JSString := do
  let payload := trim message
  match ← claim with
  | none =>
    console .warn (js "Signer: could not claim a sequence number (lock busy) — sending unsigned.")
    return payload
  | some sequence =>
    return payload ++ js " [#" ++ sequence.toText ++ js " " ++ (← tag sequence payload) ++ js "]"

end Spazito.Signer
