import Spazito.EcmaRegex
import Spazito.Platform

set_option autoImplicit false

/-!
# tools/spazito-verifier.html: the offline verifier

The page holds the key field and what the browser keeps for it. Web Crypto computes the same
HMAC-SHA256 as the platform, over bytes from 0 to 255.
-/
namespace Spazito.Verifier
open Ecma

/-! ## The block at the end of a text -/

/-- `/\[#(\d+)\s+([0-9A-Fa-f]{8})\]\s*$/` -/
def blockPattern : Regex :=
  .seq (Regex.word (js "[#")) (.seq (.group 1 (.rep 1 none (.unit isDigit)))
    (.seq (.rep 1 none (.unit isSpace)) (.seq (.group 2 (.rep 8 (some 8) (.unit isHexDigit)))
      (.seq (Regex.word (js "]")) (.seq (.rep 0 none (.unit isSpace)) .finish)))))

structure Parsed where
  n : Number
  tag : JSString
  payload : JSString
  canonical : JSString

/-- The text before the match, trimmed, is the payload. -/
def parseMessage (text : JSString) : Option Parsed :=
  (Regex.exec blockPattern text).map fun m =>
    let n := Number.parseInt (Regex.Cursor.group m.2 1)
    let payload := trim m.1.before.reverse
    ⟨n, toUpperCase (Regex.Cursor.group m.2 2), payload, n.toText ++ js "|" ++ payload⟩

/-! ## The authentication code -/

def hex (bytes : List UInt8) : JSString := toUpperCase (bytes.flatMap fun b => hexByte b.toNat)

def hmacHex [Platform] (key msg : JSString) : JSString :=
  hex ((List.finRange 32).map (Platform.hmacSha256 key msg))

def ctEqual (a b : JSString) : Bool :=
  if a.length ≠ b.length then false
  else ((List.range a.length).map fun i => a.getD i 0 ^^^ b.getD i 0).foldl (· ||| ·) 0 == 0

/-! ## The sequence -/

inductive Sequence
  | first (n : Number)
  | replay (n : Number)
  | older (n last : Number)
  | follows (n last : Number)
  | gap (n last missed : Number)

def Sequence.html : Sequence → JSString
  | first n => js "<span class=\"badge\">first message on this device &mdash; count #" ++ n.toText ++
      js " noted</span>"
  | replay n => js "&#9888;&#65039; <b>replay</b> &mdash; this is count #" ++ n.toText ++
      js ", same as the last one you saw."
  | older n last => js "&#9888;&#65039; <b>older message</b> &mdash; #" ++ n.toText ++
      js " is behind your last seen #" ++ last.toText ++ js "."
  | follows n last => js "&#10003; sequence #" ++ n.toText ++ js " follows #" ++ last.toText ++
      js " as expected."
  | gap n last missed => js "&#9888;&#65039; <b>gap</b> &mdash; jumped from #" ++ last.toText ++
      js " to #" ++ n.toText ++ js " (" ++ missed.toText ++ js " text(s) missed)."

def checkSequence (last : Option Number) (n : Number) : Sequence :=
  match last with
  | none => .first n
  | some last =>
    if Number.same n last then .replay n
    else if Number.lt n last then .older n last
    else if Number.same n (Number.add last (.finite 1)) then .follows n last
    else .gap n last (Number.sub (Number.sub n last) (.finite 1))

/-! ## The page -/

structure Page where
  secret : JSString
  remember : Bool
  storedSecret : Option JSString
  storedLastN : Option JSString

/-- The stored count, `none` for null. -/
def Page.lastN (page : Page) : Option Number := page.storedLastN.map Number.parseInt

def Page.saveSecretMaybe (page : Page) : Page :=
  { page with storedSecret := if page.remember then some page.secret else none }

/-- What the page paints: its kind, the verdict, the sequence line and the detail. -/
structure Report where
  kind : JSString
  verdict : JSString
  seq : Option Sequence
  detail : JSString

def Report.seqHtml (r : Report) : JSString := (r.seq.map Sequence.html).getD []

variable [Platform]

def expectedTag (secret : JSString) (p : Parsed) : JSString := (hmacHex secret p.canonical).take 8

/-- The stored count after an authentic text: it only goes forward. -/
def Page.advance (page : Page) (n : Number) : Page :=
  match page.lastN with
  | none => { page with storedLastN := some n.toText }
  | some last => if Number.lt last n then { page with storedLastN := some n.toText } else page

/-- The handler of the verify button. -/
def verify (page : Page) (text : JSString) : Page × Report :=
  let page := page.saveSecretMaybe
  let secret := trim page.secret
  if secret = [] then (page, ⟨js "warn", js "Enter your key first", none, []⟩)
  else
    match parseMessage text with
    | none => (page, ⟨js "warn", js "Couldn't find a [#N CODE] block", none,
        js "Paste the full text exactly as received, including the [ ... ] at the end."⟩)
    | some p =>
      let expected := expectedTag secret p
      let seq := checkSequence page.lastN p.n
      if ctEqual expected p.tag then
        (page.advance p.n, ⟨js "ok", js "✅ Authentic", some seq,
          js "verified: HMAC-SHA256 tag matches for count #" ++ p.n.toText⟩)
      else
        (page, ⟨js "bad", js "❌ NOT verified", some seq,
          js "expected " ++ expected ++ js " but the text carried " ++ p.tag ++
          js " — wrong key, or the message was altered/spoofed."⟩)

end Spazito.Verifier
