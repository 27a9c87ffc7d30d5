import Spazito.Config

set_option autoImplicit false

/-! # SecurityVault.js: the owner of all security state -/
namespace Spazito.SecurityVault
open Ecma Script

def maxFailures : ℕ := 5
def sidTtlMs : ℕ := 24 * 60 * 60 * 1000
def maxSids : ℕ := 50
def maxAuditEntries : ℕ := 20
def lockTimeoutMs : ℕ := 5000

/-- `xs.slice(-n)` for a positive count. -/
def lastOf {α : Type} (n : ℕ) (xs : List α) : List α := xs.drop (xs.length - n)

/-- `parseInt(raw, 10)`; null prints as "null". -/
def parseCount (raw : Option JSString) : Number := Number.parseInt (raw.getD (js "null"))

/-! ## The message sequence counter -/

def currentSequence : Action Number := do
  let parsed := parseCount (← getProperty .secMsgCount)
  return if parsed.isFinite && Number.le (.finite 0) parsed then parsed else .finite 0

/-- `none` is the null of a busy lock. -/
def nextSequence : Action (Option Number) :=
  Locks.withScriptLock lockTimeoutMs
    (do
      let next := Number.add (← currentSequence) (.finite 1)
      setProperty .secMsgCount next.toText
      return some next)
    (return none)

variable [Platform]

/-- The array stored under a key; anything else degrades to the empty one. -/
def readJson (key : Key) : Action (List Value) := do
  match ← getProperty key with
  | none => return []
  | some raw =>
    match Value.parse raw with
    | some (.arr xs) => return xs
    | some _ => return []
    | none =>
      console .warn (js "SecurityVault: " ++ key.name ++ js " was corrupted; starting it fresh.")
      return []

/-! ## The audit -/

def hashSender (sender : Option JSString) : Action JSString := do
  return hexPrefix 3 (computeHmacSha256Signature (sender.getD []) (← Config.require .verifierKey))

/-- The caller holds the lock. -/
def appendAudit (kind : JSString) (sender : Option JSString) : Action Unit := do
  let entries ← readJson .secAudit
  let t := isoString (← now)
  let s ← hashSender sender
  let entry := Value.obj [(js "t", .str t), (js "k", .str kind), (js "s", .str s)]
  setProperty .secAudit (Value.stringify (.arr (lastOf maxAuditEntries (entries ++ [entry]))))

def recordAudit (kind : JSString) (sender : Option JSString) : Action Unit :=
  Locks.withScriptLock lockTimeoutMs (appendAudit kind sender) (return ())

/-- Newest first. -/
def recentAudit (count : ℕ) : Action (List Value) := do
  return (lastOf count (← readJson .secAudit)).reverse

/-! ## MessageSid replay protection -/

def isUnexpired (now : Time) (entry : Value) : Except Fault Bool :=
  if entry.truthy then do
    let t ← Value.toNumber (← Value.property entry (js "t"))
    return Number.lt (Number.sub (.finite now.val) t) (.finite sidTtlMs)
  else return false

def keepFresh (now : Time) : List Value → Except Fault (List Value)
  | [] => return []
  | entry :: entries => do
    let keep ← isUnexpired now entry
    let rest ← keepFresh now entries
    return if keep then entry :: rest else rest

def isString (v : Value) (s : JSString) : Bool :=
  match v with
  | .str t => t = s
  | _ => false

def hasSid (sid : JSString) : List Value → Except Fault Bool
  | [] => return false
  | entry :: entries => do
    if isString (← Value.property entry (js "sid")) sid then return true
    hasSid sid entries

/-- Whether the sid counts as replayed: blank, seen before, or not checkable. A fresh one is
recorded. -/
def checkAndRecordSid (sid : Value) : Action Bool :=
  match sid with
  | .str sid =>
    if trim sid = [] then return true
    else
      let cleanSid := trim sid
      Locks.withScriptLock lockTimeoutMs
        (do
          let now ← now
          let seen ← readJson .secSeenSids
          let fresh ← eval (keepFresh now seen)
          if ← eval (hasSid cleanSid fresh) then return true else
          let entry := Value.obj [(js "sid", .str cleanSid), (js "t", .num (.finite now.val))]
          setProperty .secSeenSids (Value.stringify (.arr (lastOf maxSids (fresh ++ [entry]))))
          return false)
        (return true)
  | _ => return true

/-! ## Lockout -/

def isSealed : Action Bool := do
  return (← getProperty .secSealed) = some (js "true")

structure Failure where
  isSealed : Bool
  justSealed : Bool

/-- `parseInt(raw, 10) || 0`. -/
def countOrZero (raw : Option JSString) : Number :=
  let n := parseCount raw
  if n.truthy then n else .finite 0

/-- `failures >= MAX_FAILURES && !isSealed()`; the flag is read only if the count is reached. -/
def reachesSeal (failures : Number) : Action Bool :=
  if Number.le (.finite maxFailures) failures then do return !(← isSealed) else return false

def registerFailure (sender : Option JSString) : Action Failure :=
  Locks.withScriptLock lockTimeoutMs
    (do
      let failures := Number.add (countOrZero (← getProperty .secFailures)) (.finite 1)
      setProperty .secFailures failures.toText
      appendAudit (js "rejected") sender
      if ← reachesSeal failures then
        setProperty .secSealed (js "true")
        appendAudit (js "sealed") sender
        console .error (js "SecurityVault: " ++ failures.toText ++
          js " consecutive rejected token-valid requests — the bot " ++
          js "has SEALED itself and will ignore everything until re-armed with the unlock secret " ++
          js "(ADR 008 §3).")
        return ⟨true, true⟩
      else return ⟨← isSealed, false⟩)
    (do return ⟨← isSealed, false⟩)

def resetFailures : Action Unit := do
  if countOrZero (← getProperty .secFailures) = .finite 0 then return ()
  Locks.withScriptLock lockTimeoutMs (setProperty .secFailures (js "0")) (return ())

/-- `unseal`, a word Lean keeps for itself. True only when the state has changed. -/
def unsealBot (sender : Option JSString) : Action Bool :=
  Locks.withScriptLock lockTimeoutMs
    (do
      setProperty .secSealed (js "false")
      setProperty .secFailures (js "0")
      appendAudit (js "unsealed") sender
      return true)
    (do
      console .warn (js "SecurityVault: could not unseal (lock busy) — text unlock again.")
      return false)

end Spazito.SecurityVault
