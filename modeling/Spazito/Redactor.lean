import Spazito.EcmaJson
import Spazito.EcmaRegex

set_option autoImplicit false

/-! # core/Redactor.js: what may reach a log -/
namespace Spazito.Redactor
open Ecma

def anyCase (s : JSString) : Regex :=
  s.foldr (fun u r => .seq (.unit (Regex.foldCase (· == u))) r) .empty

/-- `/https?:\/\/\S*/gi` -/
def urlPattern : Regex :=
  .seq (anyCase (js "http")) (.seq (.rep 0 (some 1) (.unit (Regex.foldCase (· == 115))))
    (.seq (Regex.word (js "://")) (.rep 0 none (.unit fun u => !isSpace u))))

/-- `/apikey=[^&\s"']*/gi` -/
def apikeyPattern : Regex :=
  .seq (anyCase (js "apikey=")) (.rep 0 none (.unit fun u => !(u == 38 || isSpace u || u == 34 ||
    u == 39)))

def isBase64 (u : CodeUnit) : Bool :=
  isUpper u || isLower u || isDigit u || u == 43 || u == 47 || u == 61

/-- `/\bBasic\s+[A-Za-z0-9+/=]{8,}/g` -/
def basicPattern : Regex :=
  .seq .boundary (.seq (Regex.word (js "Basic")) (.seq (.rep 1 none (.unit isSpace))
    (.rep 8 none (.unit isBase64))))

/-- `/\b(AC|SK)[0-9a-f]{32}\b/gi` -/
def sidPattern : Regex :=
  .seq .boundary (.seq (.alt (anyCase (js "AC")) (anyCase (js "SK")))
    (.seq (.rep 32 (some 32) (.unit (Regex.foldCase fun u => isDigit u || (97 ≤ u && u ≤ 102))))
      .boundary))

def isNumberUnit (u : CodeUnit) : Bool :=
  isDigit u || u == 45 || isSpace u || u == 40 || u == 41 || u == 46

/-- `/\+?\d[\d\-\s().]{6,}\d/g` -/
def numberPattern : Regex :=
  .seq (.rep 0 (some 1) (.unit (· == 43))) (.seq (.unit isDigit)
    (.seq (.rep 6 none (.unit isNumberUnit)) (.unit isDigit)))

def scrubText (text : JSString) : JSString :=
  Regex.replaceAll numberPattern (js "[number redacted]")
    (Regex.replaceAll sidPattern (js "[sid redacted]")
      (Regex.replaceAll basicPattern (js "[auth redacted]")
        (Regex.replaceAll apikeyPattern (js "apikey=REDACTED")
          (Regex.replaceAll urlPattern (js "[url redacted]") text))))

def scrub (text : Value) : Except Fault JSString := (Value.toText text).map scrubText

example : scrubText (js "GET https://a.b/?x Basic QWxhZGRpbg== to +1 707-555-0142 failed") =
    js "GET [url redacted] [auth redacted] to [number redacted] failed" := by decide +kernel

end Spazito.Redactor
