import Spazito.EcmaCase
import Spazito.EcmaJson
import Spazito.ScriptPool

set_option autoImplicit false

/-!
# The Apps Script platform

Script Properties, the network, the clock and the log, as the operations of a script. What the
platform computes itself (HMAC-SHA256, Base64, the texts of its own errors) is a parameter.
-/
namespace Spazito
open Ecma Script

inductive Key
  | alphaVantageKey
  | twilioSid
  | twilioAuthToken
  | twilioFromNumber
  | recipientNumber
  | webhookToken
  | verifierKey
  | unlockSecret
  | twilioApiKeySid
  | debugMode
  | watchlist
  | paused
  | secMsgCount
  | secFailures
  | secSealed
  | secSeenSids
  | secAudit
  deriving DecidableEq

def Key.name : Key → JSString
  | alphaVantageKey => js "ALPHA_VANTAGE_KEY"
  | twilioSid => js "TWILIO_SID"
  | twilioAuthToken => js "TWILIO_AUTH_TOKEN"
  | twilioFromNumber => js "TWILIO_FROM_NUMBER"
  | recipientNumber => js "RECIPIENT_NUMBER"
  | webhookToken => js "WEBHOOK_TOKEN"
  | verifierKey => js "VERIFIER_KEY"
  | unlockSecret => js "UNLOCK_SECRET"
  | twilioApiKeySid => js "TWILIO_API_KEY_SID"
  | debugMode => js "DEBUG_MODE"
  | watchlist => js "WATCHLIST"
  | paused => js "PAUSED"
  | secMsgCount => js "SEC_MSG_COUNT"
  | secFailures => js "SEC_FAILURES"
  | secSealed => js "SEC_SEALED"
  | secSeenSids => js "SEC_SEEN_SIDS"
  | secAudit => js "SEC_AUDIT"

/-- A property that is not set reads as null, here `none`. -/
abbrev Store := Key → Option JSString

structure JSError where
  name : JSString
  message : JSString
  deriving DecidableEq

/-- `new Error(message)`. -/
def newError (message : JSString) : JSError := ⟨js "Error", message⟩

inductive Method
  | get
  | post
  deriving DecidableEq

/-- A call of `UrlFetchApp.fetch`; every call of the program sets muteHttpExceptions. -/
structure Request where
  method : Method
  url : JSString
  payload : List (JSString × JSString)
  headers : List (JSString × JSString)
  deriving DecidableEq

structure Response where
  code : ℕ
  body : JSString

inductive Level
  | log
  | warn
  | error
  deriving DecidableEq

inductive Op
  | getProperty (k : Key)
  | setProperty (k : Key) (v : JSString)
  | fetch (r : Request)
  | sleep (ms : ℕ)
  | now
  | console (level : Level) (text : JSString)

def Op.Ret : Op → Type
  | getProperty _ => Option JSString
  | setProperty _ _ => Except JSError Unit
  | fetch _ => Except JSError Response
  | sleep _ | console _ _ => Unit
  | now => Time

abbrev GAS : Signature := ⟨Op, Op.Ret⟩
abbrev Action := Prog GAS JSError

/-- What the platform and the engine compute: neither is part of the source. -/
class Platform where
  hmacSha256 : JSString → JSString → Fin 32 → UInt8
  base64Encode : JSString → JSString
  faultError : Fault → JSError
  stack : JSError → JSString

/-! ## The calls of a script -/

def getProperty (k : Key) : Action (Option JSString) := Prog.op (S := GAS) (.getProperty k)

/-- A write that fails throws and leaves the property as it was. -/
def setProperty (k : Key) (v : JSString) : Action Unit := do
  Prog.orRaise (← Prog.op (S := GAS) (.setProperty k v))

def fetch (r : Request) : Action Response := do
  Prog.orRaise (← Prog.op (S := GAS) (.fetch r))

def sleep (ms : ℕ) : Action Unit := Prog.op (S := GAS) (.sleep ms)
def now : Action Time := Prog.op (S := GAS) .now
def console (level : Level) (text : JSString) : Action Unit :=
  Prog.op (S := GAS) (.console level text)

def consoleIf (c : Prop) [Decidable c] (level : Level) (text : JSString) : Action Unit :=
  if c then console level text else pure ()

/-- `waitLock` answers whether the lock was obtained; the exception of a timeout is never read. -/
def waitLock (timeoutMs : ℕ) : Action Bool := Prog.perform (.waitLock timeoutMs) Prog.ret
def releaseLock : Action Unit := Prog.perform .releaseLock Prog.ret

def eval {α : Type} [Platform] (x : Except Fault α) : Action α :=
  match x with
  | .ok a => pure a
  | .error f => throw (Platform.faultError f)

/-- `Utilities.computeHmacSha256Signature`: bytes from -128 to 127. -/
def computeHmacSha256Signature [Platform] (value key : JSString) : List ℤ :=
  (List.finRange 32).map fun i => (Platform.hmacSha256 key value i).toInt8.toInt

/-- The first `n` bytes in upper-case hexadecimal. Adding 256 and reducing gives the unsigned byte. -/
def hexPrefix (n : ℕ) (bytes : List ℤ) : JSString :=
  toUpperCase ((bytes.take n).flatMap fun b => hexByte ((b + 256) % 256).toNat)

/-! ## One script alone -/

/-- What the world outside answers, one list of answers for each kind of question. -/
structure Env where
  lock : ℕ → Bool
  write : ℕ → Option JSError
  fetch : ℕ → Request → Except JSError Response
  clock : ℕ → Time

namespace Env

def afterLock (env : Env) : Env := { env with lock := fun i => env.lock (i + 1) }
def afterWrite (env : Env) : Env := { env with write := fun i => env.write (i + 1) }
def afterFetch (env : Env) : Env := { env with fetch := fun i => env.fetch (i + 1) }
def afterClock (env : Env) : Env := { env with clock := fun i => env.clock (i + 1) }

section
variable (env : Env) (i : ℕ)

@[simp] theorem afterLock_lock : env.afterLock.lock i = env.lock (i + 1) := rfl
@[simp] theorem afterLock_write : env.afterLock.write i = env.write i := rfl
@[simp] theorem afterLock_fetch : env.afterLock.fetch i = env.fetch i := rfl
@[simp] theorem afterLock_clock : env.afterLock.clock i = env.clock i := rfl
@[simp] theorem afterWrite_lock : env.afterWrite.lock i = env.lock i := rfl
@[simp] theorem afterWrite_write : env.afterWrite.write i = env.write (i + 1) := rfl
@[simp] theorem afterWrite_fetch : env.afterWrite.fetch i = env.fetch i := rfl
@[simp] theorem afterWrite_clock : env.afterWrite.clock i = env.clock i := rfl
@[simp] theorem afterFetch_lock : env.afterFetch.lock i = env.lock i := rfl
@[simp] theorem afterFetch_write : env.afterFetch.write i = env.write i := rfl
@[simp] theorem afterFetch_fetch : env.afterFetch.fetch i = env.fetch (i + 1) := rfl
@[simp] theorem afterFetch_clock : env.afterFetch.clock i = env.clock i := rfl
@[simp] theorem afterClock_lock : env.afterClock.lock i = env.lock i := rfl
@[simp] theorem afterClock_write : env.afterClock.write i = env.write i := rfl
@[simp] theorem afterClock_fetch : env.afterClock.fetch i = env.fetch i := rfl
@[simp] theorem afterClock_clock : env.afterClock.clock i = env.clock (i + 1) := rfl

end

end Env

structure World where
  store : Store
  env : Env

def Store.set (s : Store) (k : Key) (v : JSString) : Store := Function.update s k (some v)

@[simp] theorem Store.set_self (s : Store) (k : Key) (v : JSString) : s.set k v k = some v :=
  Function.update_self ..
@[simp] theorem Store.set_ne (s : Store) {k k' : Key} (v : JSString) (h : k' ≠ k) :
    s.set k v k' = s k' := Function.update_of_ne h ..

def host : Handler GAS World
  | .op (.getProperty k), w => (w.store k, w)
  | .op (.setProperty k v), w =>
    match w.env.write 0 with
    | none => (.ok (), ⟨w.store.set k v, w.env.afterWrite⟩)
    | some e => (.error e, ⟨w.store, w.env.afterWrite⟩)
  | .op (.fetch r), w => (w.env.fetch 0 r, ⟨w.store, w.env.afterFetch⟩)
  | .op (.sleep _), w => ((), w)
  | .op .now, w => (w.env.clock 0, ⟨w.store, w.env.afterClock⟩)
  | .op (.console _ _), w => ((), w)
  | .waitLock _, w => (w.env.lock 0, ⟨w.store, w.env.afterLock⟩)
  | .releaseLock, w => ((), w)

abbrev Trace := List (Cmd GAS)

end Spazito
