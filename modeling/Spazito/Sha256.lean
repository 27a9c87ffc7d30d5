import Mathlib.Data.Nat.Notation

set_option autoImplicit false

/-!
# SHA-256 and HMAC

The hash over lists of bytes, by its definition, and the keyed hash built on it.
-/
namespace Sha256

abbrev Word := BitVec 32

def roundConstants : List Word := [
  0x428a2f98, 0x71374491, 0xb5c0fbcf, 0xe9b5dba5, 0x3956c25b, 0x59f111f1, 0x923f82a4, 0xab1c5ed5,
  0xd807aa98, 0x12835b01, 0x243185be, 0x550c7dc3, 0x72be5d74, 0x80deb1fe, 0x9bdc06a7, 0xc19bf174,
  0xe49b69c1, 0xefbe4786, 0x0fc19dc6, 0x240ca1cc, 0x2de92c6f, 0x4a7484aa, 0x5cb0a9dc, 0x76f988da,
  0x983e5152, 0xa831c66d, 0xb00327c8, 0xbf597fc7, 0xc6e00bf3, 0xd5a79147, 0x06ca6351, 0x14292967,
  0x27b70a85, 0x2e1b2138, 0x4d2c6dfc, 0x53380d13, 0x650a7354, 0x766a0abb, 0x81c2c92e, 0x92722c85,
  0xa2bfe8a1, 0xa81a664b, 0xc24b8b70, 0xc76c51a3, 0xd192e819, 0xd6990624, 0xf40e3585, 0x106aa070,
  0x19a4c116, 0x1e376c08, 0x2748774c, 0x34b0bcb5, 0x391c0cb3, 0x4ed8aa4a, 0x5b9cca4f, 0x682e6ff3,
  0x748f82ee, 0x78a5636f, 0x84c87814, 0x8cc70208, 0x90befffa, 0xa4506ceb, 0xbef9a3f7, 0xc67178f2]

structure State where
  a : Word
  b : Word
  c : Word
  d : Word
  e : Word
  f : Word
  g : Word
  h : Word

def start : State :=
  ⟨0x6a09e667, 0xbb67ae85, 0x3c6ef372, 0xa54ff53a, 0x510e527f, 0x9b05688c, 0x1f83d9ab, 0x5be0cd19⟩

def State.add (s t : State) : State :=
  ⟨s.a + t.a, s.b + t.b, s.c + t.c, s.d + t.d, s.e + t.e, s.f + t.f, s.g + t.g, s.h + t.h⟩

def round (s : State) (constant word : Word) : State :=
  let sum1 := s.e.rotateRight 6 ^^^ s.e.rotateRight 11 ^^^ s.e.rotateRight 25
  let choice := (s.e &&& s.f) ^^^ (~~~s.e &&& s.g)
  let t1 := s.h + sum1 + choice + constant + word
  let sum0 := s.a.rotateRight 2 ^^^ s.a.rotateRight 13 ^^^ s.a.rotateRight 22
  let majority := (s.a &&& s.b) ^^^ (s.a &&& s.c) ^^^ (s.b &&& s.c)
  ⟨t1 + (sum0 + majority), s.a, s.b, s.c, s.d + t1, s.e, s.f, s.g⟩

/-- The newest word first. -/
def extend : ℕ → List Word → List Word
  | 0, ws => ws
  | n + 1, ws =>
    let x := ws.getD 14 0
    let y := ws.getD 1 0
    let sigma0 := x.rotateRight 7 ^^^ x.rotateRight 18 ^^^ x >>> 3
    let sigma1 := y.rotateRight 17 ^^^ y.rotateRight 19 ^^^ y >>> 10
    extend n ((sigma1 + ws.getD 6 0 + sigma0 + ws.getD 15 0) :: ws)

def schedule (block : List Word) : List Word := (extend 48 block.reverse).reverse

def rounds : State → List Word → List Word → State
  | s, constant :: constants, word :: words => rounds (round s constant word) constants words
  | s, _, _ => s

def compress (s : State) (block : List Word) : State :=
  s.add (rounds s roundConstants (schedule block))

def word (a b c d : UInt8) : Word :=
  BitVec.ofNat 32 (((a.toNat * 256 + b.toNat) * 256 + c.toNat) * 256 + d.toNat)

def words : List UInt8 → List Word
  | a :: b :: c :: d :: bytes => word a b c d :: words bytes
  | _ => []

def wordBytes (w : Word) : List UInt8 :=
  [24, 16, 8, 0].map fun shift => UInt8.ofNat (w.toNat >>> shift)

def lengthBytes (bits : ℕ) : List UInt8 :=
  [56, 48, 40, 32, 24, 16, 8, 0].map fun shift => UInt8.ofNat (bits >>> shift)

/-- A delimiter, zeros up to a whole block, and the length in bits. -/
def pad (bytes : List UInt8) : List UInt8 :=
  bytes ++ 0x80 :: List.replicate ((119 - bytes.length % 64) % 64) 0 ++ lengthBytes (8 * bytes.length)

/-- The first `n` blocks of sixteen words. -/
def blocks : ℕ → List Word → List (List Word)
  | 0, _ => []
  | n + 1, ws => ws.take 16 :: blocks n (ws.drop 16)

def hash (bytes : List UInt8) : List UInt8 :=
  let padded := words (pad bytes)
  let s := (blocks (padded.length / 16) padded).foldl compress start
  [s.a, s.b, s.c, s.d, s.e, s.f, s.g, s.h].flatMap wordBytes

def blockKey (key : List UInt8) : List UInt8 :=
  let key := if key.length > 64 then hash key else key
  key ++ List.replicate (64 - key.length) 0

/-- HMAC-SHA256 -/
def hmac (key text : List UInt8) : List UInt8 :=
  let inner := hash ((blockKey key).map (· ^^^ 0x36) ++ text)
  hash ((blockKey key).map (· ^^^ 0x5c) ++ inner)

end Sha256
