import Spazito.Platform
import Spazito.Sha256

set_option autoImplicit false

/-!
# Apps Script itself, as far as the program sees it

HMAC-SHA256 and Base64 over UTF-8, and the texts of the engine's own errors.
-/
namespace Spazito.AppsScript
open Ecma

/-- A lone surrogate becomes the replacement character. -/
def utf8Bytes (s : JSString) : List UInt8 :=
  (codePoints s).flatMap fun p =>
    (utf8 (if 0xD800 ≤ p ∧ p < 0xE000 then 0xFFFD else p)).map UInt8.ofNat

def base64Unit (n : ℕ) : CodeUnit :=
  (js "ABCDEFGHIJKLMNOPQRSTUVWXYZabcdefghijklmnopqrstuvwxyz0123456789+/").getD (n % 64) 61

def base64 : List UInt8 → JSString
  | a :: b :: c :: rest =>
    let n := (a.toNat * 256 + b.toNat) * 256 + c.toNat
    [base64Unit (n / 262144), base64Unit (n / 4096), base64Unit (n / 64), base64Unit n] ++ base64 rest
  | [a, b] =>
    let n := (a.toNat * 256 + b.toNat) * 256
    [base64Unit (n / 262144), base64Unit (n / 4096), base64Unit (n / 64), 61]
  | [a] => [base64Unit (a.toNat * 65536 / 262144), base64Unit (a.toNat * 65536 / 4096), 61, 61]
  | [] => []

def faultError : Fault → JSError
  | .nullishProperty key =>
    ⟨js "TypeError", js "Cannot read properties of undefined (reading '" ++ key ++ js "')"⟩
  | .notPrimitive => ⟨js "TypeError", js "Cannot convert object to primitive value"⟩
  | .inPrimitive key =>
    ⟨js "TypeError", js "Cannot use 'in' operator to search for '" ++ key ++ js "' in a primitive"⟩
  | .jsonSyntax _ => ⟨js "SyntaxError", js "Unexpected end of JSON input"⟩
  | .malformedURI => ⟨js "URIError", js "URI malformed"⟩

scoped instance : Platform where
  hmacSha256 key text i := (Sha256.hmac (utf8Bytes key) (utf8Bytes text)).getD i 0
  base64Encode s := base64 (utf8Bytes s)
  faultError := faultError
  stack e := e.name ++ js ": " ++ e.message ++ js "\n    at <anonymous>"

example : hexPrefix 4 (computeHmacSha256Signature
    (js "The quick brown fox jumps over the lazy dog") (js "key")) = js "F7BC83F4" := by
  decide +kernel

/-! A configured bot on its first day. -/

def sampleStore : Store
  | .alphaVantageKey => some (js "demo")
  | .twilioSid => some (js "AC0123")
  | .twilioAuthToken => some (js "secret")
  | .twilioFromNumber => some (js "+15550100")
  | .recipientNumber => some (js "+15550199")
  | .webhookToken => some (js "token")
  | .verifierKey => some (js "key")
  | .unlockSecret => some (js "open sesame")
  | _ => none

/-- Every lock is free and every write succeeds; the network is down. -/
def sampleEnv : Env where
  lock _ := true
  write _ := none
  fetch _ _ := .error (newError (js "DNS error"))
  clock _ := ⟨0, by decide⟩

def sampleAnswer {ι : Type} (_ : ι) (o : Op) (s : Store) : o.Ret × Store :=
  ((host (.op o) ⟨s, sampleEnv⟩).1, (host (.op o) ⟨s, sampleEnv⟩).2.store)

end Spazito.AppsScript
