import Spazito.EcmaNumber

set_option autoImplicit false

/-!
# Values and JSON

The values that `JSON.parse` builds, with `undefined` added; the coercions of the language on
them; and the text format itself. A coercion fails only where the language throws.
-/
namespace Ecma

inductive Value
  | undefined
  | null
  | bool (b : Bool)
  | num (x : Number)
  | str (s : JSString)
  | arr (xs : List Value)
  | obj (ps : List (JSString × Value))

/-- What the language itself throws. -/
inductive Fault
  | nullishProperty (key : JSString)
  | notPrimitive
  | inPrimitive (key : JSString)
  | jsonSyntax (text : JSString)
  | malformedURI
  deriving DecidableEq

@[simp] theorem ok_bind {ε α β : Type} (a : α) (f : α → Except ε β) :
    ((.ok a : Except ε α) >>= f) = f a := rfl
@[simp] theorem error_bind {ε α β : Type} (e : ε) (f : α → Except ε β) :
    ((.error e : Except ε α) >>= f) = .error e := rfl

@[simp] theorem pure_eq_ok {ε α : Type} (a : α) : (pure a : Except ε α) = .ok a := rfl

theorem bind_eq_ok {ε α β : Type} {x : Except ε α} {f : α → Except ε β} {b : β} :
    (x >>= f) = .ok b ↔ ∃ a, x = .ok a ∧ f a = .ok b := by
  cases x <;> simp

theorem mapM_eq_ok {ε α β : Type} {f : α → Except ε β} {xs : List α} {ys : List β} :
    xs.mapM f = .ok ys ↔ List.Forall₂ (fun x y => f x = .ok y) xs ys := by
  induction xs generalizing ys with
  | nil => simp [eq_comm]
  | cons x xs ih =>
    rw [List.mapM_cons, bind_eq_ok]
    constructor
    · rintro ⟨y, hy, h⟩
      obtain ⟨zs, hzs, h⟩ := bind_eq_ok.mp h
      obtain rfl := Except.ok.inj h
      exact .cons hy (ih.mp hzs)
    · intro h
      cases h with
      | cons hy hys =>
        refine ⟨_, hy, bind_eq_ok.mpr ⟨_, ih.mpr hys, rfl⟩⟩

theorem exists_mapM {ε α β : Type} {f : α → Except ε β} {xs : List α}
    (h : ∀ x ∈ xs, ∃ y, f x = .ok y) : ∃ ys, xs.mapM f = .ok ys := by
  induction xs with
  | nil => exact ⟨[], rfl⟩
  | cons x xs ih =>
    obtain ⟨y, hy⟩ := h x (by simp)
    obtain ⟨ys, hys⟩ := ih fun x hx => h x (by simp [hx])
    exact ⟨y :: ys, mapM_eq_ok.mpr (.cons hy (mapM_eq_ok.mp hys))⟩

namespace Value

def truthy : Value → Bool
  | undefined | null => false
  | bool b => b
  | num x => x.truthy
  | str s => s ≠ []
  | arr _ | obj _ => true

def ofOption : Option JSString → Value
  | none => undefined
  | some s => str s

def lookup (ps : List (JSString × Value)) (key : JSString) : Value :=
  match ps.find? fun p => p.1 = key with
  | some p => p.2
  | none => undefined

/-- `v[key]`, for keys that no built-in prototype has. -/
def property (v : Value) (key : JSString) : Except Fault Value :=
  match v with
  | undefined | null => .error (.nullishProperty key)
  | obj ps => .ok (lookup ps key)
  | _ => .ok undefined

/-- `key in v`, for keys that no built-in prototype has. -/
def hasProperty (key : JSString) (v : Value) : Except Fault Bool :=
  match v with
  | obj ps => .ok (ps.any fun p => p.1 = key)
  | arr _ => .ok false
  | _ => .error (.inPrimitive key)

mutual
/-- A value as an element of `xs.join(',')`: null and undefined print nothing. An object with a
`toString` of its own yields no primitive, since no value here is callable. -/
def elementText : Value → Except Fault JSString
  | undefined | null => .ok []
  | bool b => .ok (if b then js "true" else js "false")
  | num x => .ok x.toText
  | str s => .ok s
  | arr xs => joinText xs
  | obj ps =>
    if ps.any fun p => p.1 = js "toString" then .error .notPrimitive else .ok (js "[object Object]")

/-- `xs.join(',')`. -/
def joinText : List Value → Except Fault JSString
  | [] => .ok []
  | [x] => elementText x
  | x :: y :: xs => do
    let s ← elementText x
    let t ← joinText (y :: xs)
    return s ++ js "," ++ t
end

/-- `String(v)`, and `v` as an operand of a string concatenation. -/
def toText : Value → Except Fault JSString
  | undefined => .ok (js "undefined")
  | null => .ok (js "null")
  | v => elementText v

/-- `Number(v)`, and `v` as an operand of a subtraction. -/
def toNumber : Value → Except Fault Number
  | undefined => .ok .nan
  | null => .ok (.finite 0)
  | bool b => .ok (.finite (if b then 1 else 0))
  | num x => .ok x
  | v => (toText v).map Number.ofText

/-! ## Serialization -/

def hex4 (n : ℕ) : JSString :=
  [hexUnit (n / 4096 % 16), hexUnit (n / 256 % 16), hexUnit (n / 16 % 16), hexUnit (n % 16)]

def shortEscapes : List (CodeUnit × CodeUnit) :=
  [(8, 98), (9, 116), (10, 110), (12, 102), (13, 114), (34, 34), (92, 92)]

def escapeUnit (u : CodeUnit) : JSString :=
  match shortEscapes.lookup u with
  | some e => [92, e]
  | none =>
    if u < 32 || isHighSurrogate u || isLowSurrogate u then 92 :: 117 :: hex4 u.toNat else [u]

/-- A surrogate pair stays as it is; a lone surrogate is escaped. -/
def quoteBody : JSString → JSString
  | [] => []
  | [u] => escapeUnit u
  | u :: v :: s =>
    if isHighSurrogate u && isLowSurrogate v then u :: v :: quoteBody s
    else escapeUnit u ++ quoteBody (v :: s)

def quote (s : JSString) : JSString := 34 :: quoteBody s ++ [34]

mutual
/-- `JSON.stringify(v)`; `undefined` stands for itself only inside an array, where it prints null. -/
def stringify : Value → JSString
  | undefined | null => js "null"
  | bool b => if b then js "true" else js "false"
  | num x => if x.isFinite then x.toText else js "null"
  | str s => quote s
  | arr xs => 91 :: elementsText xs ++ [93]
  | obj ps => 123 :: membersText ps ++ [125]

def elementsText : List Value → JSString
  | [] => []
  | [x] => stringify x
  | x :: y :: xs => stringify x ++ 44 :: elementsText (y :: xs)

def membersText : List (JSString × Value) → JSString
  | [] => []
  | [(k, x)] => quote k ++ 58 :: stringify x
  | (k, x) :: p :: ps => quote k ++ 58 :: stringify x ++ 44 :: membersText (p :: ps)
end

/-! ## Parsing -/

def skipSpace (s : JSString) : JSString :=
  s.dropWhile fun u => u == 9 || u == 10 || u == 13 || u == 32

def stringBody : JSString → Option (JSString × JSString)
  | [] => none
  | u :: s =>
    if u = 34 then some ([], s)
    else if u = 92 then
      match s with
      | [] => none
      | e :: t =>
        if e = 117 then
          match t with
          | a :: b :: c :: d :: r =>
            if isHexDigit a && isHexDigit b && isHexDigit c && isHexDigit d then
              (stringBody r).map fun p => (UInt16.ofNat (4096 * hexValue a + 256 * hexValue b +
                16 * hexValue c + hexValue d) :: p.1, p.2)
            else none
          | _ => none
        else if e = 47 then (stringBody t).map fun p => (47 :: p.1, p.2)
        else match shortEscapes.find? fun p => p.2 = e with
          | some q => (stringBody t).map fun p => (q.1 :: p.1, p.2)
          | none => none
    else if u < 32 then none
    else (stringBody s).map fun p => (u :: p.1, p.2)

def fractionPart (s : JSString) : Option (JSString × JSString) :=
  if s.head? = some 46 then
    let fp := s.tail.takeWhile isDigit
    if fp = [] then none else some (fp, s.tail.dropWhile isDigit)
  else some ([], s)

def exponentToken (s : JSString) : Option (ℤ × JSString) :=
  if s.head? = some 101 ∨ s.head? = some 69 then
    let (down, t) := Number.splitSign s.tail
    let ds := t.takeWhile isDigit
    if ds = [] then none
    else some (if down then -(digitsValue ds : ℤ) else digitsValue ds, t.dropWhile isDigit)
  else some (0, s)

def numberToken (s : JSString) : Option (Number × JSString) :=
  let (negative, t) := if s.head? = some 45 then (true, s.tail) else (false, s)
  let ip := t.takeWhile isDigit
  if ip = [] ∨ (1 < ip.length ∧ ip.head? = some 48) then none
  else do
    let (fp, r) ← fractionPart (t.dropWhile isDigit)
    let (e, r) ← exponentToken r
    let q := (digitsValue (ip ++ fp) : ℚ) * 10 ^ (e - (fp.length : ℤ))
    return (Number.ofRat (if negative then -q else q), r)

/-- A property name that is an array index; these come first, in numeric order. -/
def arrayIndex (k : JSString) : Option ℕ :=
  let n := digitsValue k
  if k.all isDigit ∧ decimal n = k ∧ n < 2 ^ 32 - 1 then some n else none

def setMember (ps : List (JSString × Value)) (k : JSString) (v : Value) : List (JSString × Value) :=
  if ps.any fun p => p.1 = k then ps.map fun p => if p.1 = k then (k, v) else p
  else match arrayIndex k with
    | none => ps ++ [(k, v)]
    | some n =>
      let before (p : JSString × Value) := (arrayIndex p.1).any (· < n)
      ps.takeWhile before ++ (k, v) :: ps.dropWhile before

def ofMembers (ps : List (JSString × Value)) : Value :=
  obj (ps.foldl (fun acc p => setMember acc p.1 p.2) [])

mutual
def parseValue : ℕ → JSString → Option (Value × JSString)
  | 0, _ => none
  | n + 1, s =>
    match skipSpace s with
    | [] => none
    | u :: t =>
      if u = 34 then (stringBody t).map fun p => (str p.1, p.2)
      else if u = 91 then
        match skipSpace t with
        | [] => none
        | v :: r => if v = 93 then some (arr [], r)
          else (parseElements n (v :: r)).map fun p => (arr p.1, p.2)
      else if u = 123 then
        match skipSpace t with
        | [] => none
        | v :: r => if v = 125 then some (obj [], r)
          else (parseMembers n (v :: r)).map fun p => (ofMembers p.1, p.2)
      else if u = 116 then if t.take 3 = js "rue" then some (bool true, t.drop 3) else none
      else if u = 102 then if t.take 4 = js "alse" then some (bool false, t.drop 4) else none
      else if u = 110 then if t.take 3 = js "ull" then some (null, t.drop 3) else none
      else (numberToken (u :: t)).map fun p => (num p.1, p.2)

def parseElements : ℕ → JSString → Option (List Value × JSString)
  | 0, _ => none
  | n + 1, s =>
    match parseValue n s with
    | none => none
    | some (x, r) =>
      match skipSpace r with
      | [] => none
      | u :: t =>
        if u = 44 then (parseElements n t).map fun p => (x :: p.1, p.2)
        else if u = 93 then some ([x], t) else none

def parseMembers : ℕ → JSString → Option (List (JSString × Value) × JSString)
  | 0, _ => none
  | n + 1, s =>
    match skipSpace s with
    | [] => none
    | q :: s =>
      if q ≠ 34 then none
      else match stringBody s with
        | none => none
        | some (k, r) =>
          match skipSpace r with
          | [] => none
          | c :: r =>
            if c ≠ 58 then none
            else match parseValue n r with
              | none => none
              | some (x, r) =>
                match skipSpace r with
                | [] => none
                | u :: t =>
                  if u = 44 then (parseMembers n t).map fun p => ((k, x) :: p.1, p.2)
                  else if u = 125 then some ([(k, x)], t) else none
end

/-- `JSON.parse(s)`; `none` is the SyntaxError. The fuel covers the nesting any text of this length
can have. -/
def parse (s : JSString) : Option Value :=
  match parseValue (2 * s.length + 2) s with
  | some (v, r) => if skipSpace r = [] then some v else none
  | none => none

example : (parse (js "[\"SPY\", \"B\\u0052K\\n\",-12.5e1 ,{}]")).map stringify =
    some (js "[\"SPY\",\"BRK\\n\",-125,{}]") := by decide +kernel

end Value
end Ecma
