import Spazito.AppsScript
import Spazito.ShellFootprints
import Spazito.Verifier

set_option autoImplicit false

/-!
# A signed text and its verification

Where the block of a text is found, and why the verifier computes the tag that the signer wrote.
-/
namespace Spazito
open Ecma Script

namespace Verifier

/-! ## Finding the block -/

/-- The parts of a block at the end of a text. -/
structure Block where
  digits : JSString
  spaces : JSString
  tag : JSString
  trail : JSString

namespace Block

def text (b : Block) : JSString :=
  js "[#" ++ (b.digits ++ (b.spaces ++ (b.tag ++ (js "]" ++ b.trail))))

structure WellFormed (b : Block) : Prop where
  digits : b.digits ≠ [] ∧ ∀ u ∈ b.digits, isDigit u = true
  spaces : b.spaces ≠ [] ∧ ∀ u ∈ b.spaces, isSpace u = true
  tag : b.tag.length = 8 ∧ ∀ u ∈ b.tag, isHexDigit u = true
  trail : ∀ u ∈ b.trail, isSpace u = true

end Block

theorem mem_run_group_unit {p : CodeUnit → Bool} {i least : ℕ} {most : Option ℕ}
    (hm : ∀ m ∈ most, least ≤ m) {c e : Cursor} :
    e ∈ Regex.run (.group i (.rep least most (.unit p))) c ↔
      ∃ w t, c.rest = w ++ t ∧ least ≤ w.length ∧ (∀ m ∈ most, w.length ≤ m) ∧
        (∀ u ∈ w, p u = true) ∧ e = ⟨w.reverse ++ c.before, t, (i, w) :: c.groups⟩ := by
  rw [Regex.mem_run_group]
  constructor
  · rintro ⟨d, hd, rfl⟩
    obtain ⟨w, hl, hmost, hw, hrest, hbefore, hgroups⟩ := (Regex.mem_run_rep_unit _ _ hm).mp hd
    refine ⟨w, d.rest, hrest, hl, hmost, hw, ?_⟩
    simp [hrest, hbefore, hgroups]
  · rintro ⟨w, t, hrest, hl, hmost, hw, rfl⟩
    refine ⟨⟨w.reverse ++ c.before, t, c.groups⟩, (Regex.mem_run_rep_unit _ _ hm).mpr
      ⟨w, hl, hmost, hw, hrest, rfl, rfl⟩, ?_⟩
    simp [hrest]

/-- The pattern matches exactly the well-formed blocks that reach to the end. -/
theorem mem_run_block {c e : Cursor} : e ∈ Regex.run blockPattern c ↔
    ∃ b : Block, b.WellFormed ∧ c.rest = b.text ∧
      e = ⟨b.text.reverse ++ c.before, [], (2, b.tag) :: (1, b.digits) :: c.groups⟩ := by
  simp only [blockPattern, Regex.mem_run_seq, Regex.mem_run_word, Regex.mem_run_finish,
    mem_run_group_unit (show ∀ m ∈ (none : Option ℕ), 1 ≤ m by simp),
    mem_run_group_unit (show ∀ m ∈ some 8, 8 ≤ m by simp),
    Regex.mem_run_rep_unit 1 none (by simp), Regex.mem_run_rep_unit 0 none (by simp)]
  constructor
  · rintro ⟨c₁, ⟨h1, h1', h1''⟩, _, ⟨digits, t₂, h2, hl2, -, hd, rfl⟩, c₃,
      ⟨spaces, hl3, -, hs, h3, h3', h3''⟩, _, ⟨tag, t₄, h4, hl4, hm4, ht, rfl⟩, c₅,
      ⟨h5, h5', h5''⟩, c₆, ⟨trail, -, -, htrail, h6, h6', h6''⟩, hend, rfl⟩
    dsimp only at h3 h3' h3'' h4 h5 h5' h5''
    have hlen : tag.length = 8 := le_antisymm (hm4 8 rfl) hl4
    have hne : ∀ w : JSString, 1 ≤ w.length → w ≠ [] := by
      rintro _ h rfl
      simp at h
    refine ⟨⟨digits, spaces, tag, trail⟩, ⟨⟨hne _ hl2, hd⟩, ⟨hne _ hl3, hs⟩, ⟨hlen, ht⟩, htrail⟩,
      ?_, ?_⟩
    · rw [h1, h2, h3, h4, h5, h6, hend, List.append_nil]
      rfl
    · obtain ⟨before, rest, groups⟩ := e
      simp only at hend h6' h6''
      simp only [hend, h6', h6'', h5', h5'', h3', h3'', h1', h1'', Block.text, List.reverse_append,
        List.append_assoc]
  · rintro ⟨b, ⟨⟨hdne, hd⟩, ⟨hsne, hs⟩, ⟨htl, ht⟩, htrail⟩, hrest, rfl⟩
    have hpos : ∀ w : JSString, w ≠ [] → 1 ≤ w.length := fun w h => List.length_pos_iff.mpr h
    refine ⟨⟨(js "[#").reverse ++ c.before, b.digits ++ (b.spaces ++ (b.tag ++ (js "]" ++ b.trail))),
      c.groups⟩, ⟨hrest, rfl, rfl⟩, _, ⟨b.digits, _, rfl, hpos _ hdne, by simp, hd, rfl⟩,
      ⟨b.spaces.reverse ++ (b.digits.reverse ++ ((js "[#").reverse ++ c.before)),
        b.tag ++ (js "]" ++ b.trail), (1, b.digits) :: c.groups⟩,
      ⟨b.spaces, hpos _ hsne, by simp, hs, rfl, rfl, rfl⟩, _,
      ⟨b.tag, _, rfl, htl.ge, by simp [htl], ht, rfl⟩,
      ⟨(js "]").reverse ++ (b.tag.reverse ++ (b.spaces.reverse ++ (b.digits.reverse ++
        ((js "[#").reverse ++ c.before)))), b.trail, (2, b.tag) :: (1, b.digits) :: c.groups⟩,
      ⟨rfl, rfl, rfl⟩, _, ⟨b.trail, Nat.zero_le _, by simp, htrail, ?_⟩, rfl, rfl⟩
    simp [Regex.Cursor.Passes, Block.text]

theorem Block.text_reverse (b : Block) : b.text.reverse =
    b.trail.reverse ++ (93 :: (b.tag.reverse ++ (b.spaces.reverse ++ (b.digits.reverse ++ [35, 91])))) := by
  have hopen : (js "[#").reverse = [35, 91] := by decide
  have hclose : (js "]").reverse = [93] := by decide
  simp only [Block.text, List.reverse_append, List.append_assoc, hopen, hclose, List.cons_append,
    List.nil_append]

theorem Block.WellFormed.unique {b b' : Block} (hb : b.WellFormed) (hb' : b'.WellFormed)
    {v : JSString} (h : b.text = v ++ b'.text) : v = [] ∧ b = b' := by
  have hrev := congrArg List.reverse h
  rw [List.reverse_append, b.text_reverse, b'.text_reverse] at hrev
  simp only [List.append_assoc, List.cons_append, List.nil_append] at hrev
  have hall : ∀ {p : CodeUnit → Bool} {w : JSString}, (∀ u ∈ w, p u = true) →
      ∀ u ∈ w.reverse, p u = true := fun hw u hu => hw u (List.mem_reverse.mp hu)
  have hhead : ∀ (w t : JSString), w ≠ [] ∧ (∀ u ∈ w, isDigit u = true) →
      ∀ u ∈ (w.reverse ++ t).head?, isSpace u = false := by
    intro w t hw u hu
    rw [List.head?_append_of_ne_nil _ (by simpa using hw.1)] at hu
    exact Number.isSpace_of_isDigit (hw.2 u (List.mem_reverse.mp (List.mem_of_mem_head? hu)))
  obtain ⟨htrail, hrev⟩ := span_unique hrev (hall hb.trail) (hall hb'.trail)
    (by rintro u ⟨⟩; decide) (by rintro u ⟨⟩; decide)
  obtain ⟨htag, hrev⟩ := List.append_inj (List.cons.inj hrev).2 (by simp [hb.tag.1, hb'.tag.1])
  obtain ⟨hspaces, hrev⟩ := span_unique hrev (hall hb.spaces.2) (hall hb'.spaces.2)
    (hhead _ _ hb.digits) (hhead _ _ hb'.digits)
  obtain ⟨hdigits, hrev⟩ := span_unique hrev (hall hb.digits.2) (hall hb'.digits.2)
    (by rintro u ⟨⟩; decide) (by rintro u ⟨⟩; decide)
  refine ⟨by simpa using hrev, ?_⟩
  obtain ⟨digits, spaces, tag, trail⟩ := b
  obtain ⟨digits', spaces', tag', trail'⟩ := b'
  simp only [List.reverse_inj] at htrail htag hspaces hdigits
  rw [htrail, htag, hspaces, hdigits]

theorem exec_block (v : JSString) {b : Block} (hb : b.WellFormed) :
    Regex.exec blockPattern (v ++ b.text) = some (⟨v.reverse, b.text, []⟩,
      ⟨b.text.reverse ++ v.reverse, [], [(2, b.tag), (1, b.digits)]⟩) := by
  have hthere : ∀ e, e ∈ Regex.run blockPattern ⟨v.reverse ++ [], b.text, []⟩ ↔
      e = ⟨b.text.reverse ++ v.reverse, [], [(2, b.tag), (1, b.digits)]⟩ := by
    intro e
    rw [mem_run_block]
    constructor
    · rintro ⟨b', hb', htext, rfl⟩
      obtain ⟨-, rfl⟩ := hb.unique hb' (v := []) htext
      simp
    · rintro rfl
      exact ⟨b, hb, rfl, by simp⟩
  have hhead : (Regex.run blockPattern ⟨v.reverse ++ [], b.text, []⟩).head? =
      some ⟨b.text.reverse ++ v.reverse, [], [(2, b.tag), (1, b.digits)]⟩ := by
    generalize Regex.run blockPattern ⟨v.reverse ++ [], b.text, []⟩ = es at hthere
    cases es with
    | nil => exact absurd ((hthere _).mpr rfl) (by simp)
    | cons e es => exact congrArg some ((hthere e).mp (by simp))
  rw [Regex.exec, Regex.search_append v b.text [] _ ?_ hhead, List.append_nil]
  -- a match that begins earlier would be a block that contains this one
  rintro v₁ v₂ - hne
  refine List.eq_nil_iff_forall_not_mem.mpr fun e he => hne ?_
  obtain ⟨b', hb', htext, -⟩ := mem_run_block.mp he
  exact (hb'.unique hb htext.symm).1

theorem parseMessage_block (v : JSString) {b : Block} (hb : b.WellFormed) :
    parseMessage (v ++ b.text) = some
      ⟨Number.parseInt b.digits, toUpperCase b.tag, trim v,
        (Number.parseInt b.digits).toText ++ js "|" ++ trim v⟩ := by
  have hgroups : Regex.Cursor.group
      ⟨b.text.reverse ++ v.reverse, [], [(2, b.tag), (1, b.digits)]⟩ 1 = b.digits ∧
      Regex.Cursor.group
        ⟨b.text.reverse ++ v.reverse, [], [(2, b.tag), (1, b.digits)]⟩ 2 = b.tag := ⟨rfl, rfl⟩
  rw [parseMessage, exec_block v hb]
  simp only [Option.map_some, hgroups, List.reverse_reverse]

end Verifier

/-! ## The tag -/

def hexPair (b : UInt8) : JSString := toUpperCase (hexByte b.toNat)

theorem byte_cases {P : ℕ → Prop} (h : ∀ a < 16, ∀ d < 16, P (16 * a + d)) (b : UInt8) :
    P b.toNat := by
  have hb := b.toNat_lt
  have hn := h (b.toNat / 16) (by omega) (b.toNat % 16) (by omega)
  rwa [Nat.div_add_mod] at hn

theorem hexByte_ascii (b : UInt8) : ∀ u ∈ hexByte b.toNat, u < 128 := by
  have h := byte_cases (P := fun n => (hexByte n).all (fun u => decide (u < 128)) = true)
    (by decide +kernel) b
  simpa using h

theorem hexPair_units (b : UInt8) : (hexPair b).length = 2 ∧
    ∀ u ∈ hexPair b, isHexDigit u = true ∧ u < 128 ∧ isLower u = false := by
  have h := byte_cases (P := fun n => (toUpperCase (hexByte n)).length = 2 ∧
    (toUpperCase (hexByte n)).all (fun u => isHexDigit u && decide (u < 128) && !isLower u) = true)
    (by decide +kernel) b
  refine ⟨h.1, fun u hu => ?_⟩
  have hu := List.all_eq_true.mp h.2 u hu
  simpa [and_assoc] using hu

theorem hex_eq (bytes : List UInt8) : Verifier.hex bytes = bytes.flatMap hexPair := by
  induction bytes with
  | nil => rfl
  | cons b bytes ih =>
    rw [Verifier.hex, List.flatMap_cons, toUpperCase_append _ _ (hexByte_ascii b), List.flatMap_cons]
    · rw [← ih]
      rfl
    · intro u hu
      obtain ⟨b', -, hu⟩ := List.mem_flatMap.mp hu
      exact hexByte_ascii b' u hu

theorem length_flatMap_hexPair (bytes : List UInt8) :
    (bytes.flatMap hexPair).length = 2 * bytes.length := by
  induction bytes with
  | nil => rfl
  | cons b bytes ih =>
    rw [List.flatMap_cons, List.length_append, ih, (hexPair_units b).1, List.length_cons]
    omega

theorem unsigned_toInt8 (b : UInt8) : ((b.toInt8.toInt + 256) % 256).toNat = b.toNat := by
  have h := byte_cases (P := fun n => (((UInt8.ofNat n).toInt8.toInt + 256) % 256).toNat = n)
    (by decide +kernel) b
  simpa using h

section Tags

variable [Platform]

/-- The first bytes of the platform's code, as the signer writes them, are the beginning of what the
verifier computes. -/
theorem hexPrefix_eq (n : ℕ) (key text : JSString) (hn : n ≤ 32) :
    hexPrefix n (computeHmacSha256Signature text key) =
      (Verifier.hmacHex key text).take (2 * n) := by
  have htake : (Verifier.hmacHex key text).take (2 * n) =
      (((List.finRange 32).map (Platform.hmacSha256 key text)).take n).flatMap hexPair := by
    rw [Verifier.hmacHex, hex_eq]
    conv_lhs => rw [← List.take_append_drop n ((List.finRange 32).map _), List.flatMap_append]
    refine List.take_left' ?_
    rw [length_flatMap_hexPair, List.length_take, List.length_map, List.length_finRange,
      Nat.min_eq_left hn]
  rw [htake, ← hex_eq, hexPrefix, computeHmacSha256Signature, Verifier.hex]
  simp only [List.map_take.symm, List.flatMap_map, unsigned_toInt8]

def tagOf (key canonical : JSString) : JSString :=
  hexPrefix 4 (computeHmacSha256Signature canonical key)

theorem hexPrefix_units (key text : JSString) {n : ℕ} (hn : n ≤ 32) :
    (hexPrefix n (computeHmacSha256Signature text key)).length = 2 * n ∧
      ∀ u ∈ hexPrefix n (computeHmacSha256Signature text key),
        isHexDigit u = true ∧ u < 128 ∧ isLower u = false := by
  have hbytes : ∃ bytes : List UInt8, bytes.length = n ∧
      hexPrefix n (computeHmacSha256Signature text key) = bytes.flatMap hexPair := by
    refine ⟨((List.finRange 32).map (Platform.hmacSha256 key text)).take n, by simp [hn], ?_⟩
    rw [← hex_eq, hexPrefix, computeHmacSha256Signature, Verifier.hex]
    simp only [List.map_take.symm, List.flatMap_map, unsigned_toInt8]
  obtain ⟨bytes, hlen, hcode⟩ := hbytes
  rw [hcode]
  refine ⟨by rw [length_flatMap_hexPair, hlen], fun u hu => ?_⟩
  obtain ⟨b, -, hu⟩ := List.mem_flatMap.mp hu
  exact (hexPair_units b).2 u hu

theorem tagOf_units (key canonical : JSString) : (tagOf key canonical).length = 8 ∧
    ∀ u ∈ tagOf key canonical, isHexDigit u = true ∧ u < 128 ∧ isLower u = false :=
  hexPrefix_units key canonical (by omega)

theorem toUpperCase_tagOf (key canonical : JSString) :
    toUpperCase (tagOf key canonical) = tagOf key canonical :=
  toUpperCase_eq_self _ fun u hu => ((tagOf_units key canonical).2 u hu).2

end Tags

/-! ## Signing -/

namespace SecurityVault

def countOf (raw : Option JSString) : Number :=
  let parsed := parseCount raw
  if parsed.isFinite && Number.le (.finite 0) parsed then parsed else .finite 0

theorem countOf_decimal {n : ℕ} (hn : n ≤ 2 ^ 53) : countOf (some (decimal n)) = .finite n := by
  have hp : parseCount (some (decimal n)) = .finite n := Number.parseInt_decimal n hn
  have hle : Number.le (.finite 0) (.finite (n : ℚ)) = true := by simp [Number.le, Number.lt]
  simp [countOf, hp, Number.isFinite, hle]

theorem exec_currentSequence (w : World) :
    currentSequence.exec host w = (.ok (countOf (w.store .secMsgCount)), w) := rfl

theorem exec_nextSequence {w : World} {c : ℕ} (hc : countOf (w.store .secMsgCount) = .finite c)
    (hbound : c + 1 ≤ 2 ^ 53) (hl : w.env.lock 0 = true) (hw : w.env.write 0 = none) :
    nextSequence.exec host w = (.ok (some (.finite (c + 1 : ℕ))),
      ⟨w.store.set .secMsgCount (decimal (c + 1)), w.env.afterLock.afterWrite⟩) := by
  have hadd : Number.add (.finite c) (.finite 1) = .finite (c + 1 : ℕ) := by
    simpa using Number.add_natCast c 1 hbound
  have htext : Number.toText (.finite (c + 1 : ℕ)) = decimal (c + 1) :=
    Number.toText_natCast (c + 1) hbound
  simp only [nextSequence, exec_withScriptLock, hl, ↓reduceIte, Prog.bind_eq, Prog.exec_bind,
    exec_currentSequence, Prog.next_ok, hc, hadd, htext,
    exec_setProperty ⟨w.store, w.env.afterLock⟩ _ _ hw]
  rfl

end SecurityVault

namespace Signer

theorem exec_claim {w : World} {c : ℕ}
    (hc : SecurityVault.countOf (w.store .secMsgCount) = .finite c) (hbound : c + 1 ≤ 2 ^ 53)
    (hdebug : w.store.secret .debugMode ≠ js "true") (hl : w.env.lock 0 = true)
    (hw : w.env.write 0 = none) : claim.exec host w = (.ok (some (.finite (c + 1 : ℕ))),
      ⟨w.store.set .secMsgCount (decimal (c + 1)), w.env.afterLock.afterWrite⟩) := by
  have hd : Config.isDebugMode.exec host w = (.ok false, w) := by
    rw [Prog.exec_of_run host (run_isDebugMode w), decide_eq_false hdebug]
  simp only [claim, Prog.bind_eq, Prog.exec_bind, hd, Prog.next_ok, Bool.false_eq_true, ↓reduceIte,
    SecurityVault.exec_nextSequence hc hbound hl hw]

variable [Platform]

def block (key : JSString) (n : ℕ) (payload : JSString) : Verifier.Block :=
  ⟨decimal n, js " ", tagOf key (decimal n ++ js "|" ++ payload), []⟩

theorem block_wellFormed (key : JSString) (n : ℕ) (payload : JSString) :
    (block key n payload).WellFormed where
  digits := ⟨decimal_ne_nil n, decimal_isDigit n⟩
  spaces := ⟨List.cons_ne_nil _ _, by
    rintro u hu
    obtain rfl : u = 32 := by simpa [block, js, encodePoint] using hu
    decide⟩
  tag := ⟨(tagOf_units _ _).1, fun u hu => ((tagOf_units _ _).2 u hu).1⟩
  trail := by simp [block]

def signedText (key : JSString) (n : ℕ) (message : JSString) : JSString :=
  trim message ++ js " " ++ (block key n (trim message)).text

/-- What follows the claim only reads the key. -/
theorem exec_sign {w w' : World} {n : ℕ} (message : JSString) (hn : n ≤ 2 ^ 53)
    (hkey : Config.isMissing (w.store .verifierKey) = false)
    (hclaim : claim.exec host w = (.ok (some (.finite n)), w')) :
    (sign message).exec host w =
      (.ok (signedText (w.store.secret .verifierKey) n message), w') := by
  have hsame : w'.store .verifierKey = w.store .verifierKey := by
    have h := Footprint.unchanged (F := ⟨fun _ => True, (· = .secMsgCount), fun _ => True⟩)
      (within_claim trivial trivial rfl) (k := .verifierKey) (by simp) w
    change (claim.exec host w).2.store .verifierKey = _ at h
    rwa [hclaim] at h
  have htag : (tag (.finite n) (trim message)).exec host w' =
      (.ok (tagOf (w.store.secret .verifierKey) (decimal n ++ js "|" ++ trim message)), w') := by
    have hkey' : Config.isMissing (w'.store .verifierKey) = false := by rw [hsame, hkey]
    have hsecret : w'.store.secret .verifierKey = w.store.secret .verifierKey := by
      rw [Store.secret, hsame]
      rfl
    simp only [tag, Number.toText_natCast n hn, Prog.bind_eq, Prog.exec_bind,
      exec_require w' _ hkey', Prog.next_ok, hsecret]
    rfl
  simp only [sign, Prog.bind_eq, Prog.exec_bind, hclaim, Prog.next_ok, htag,
    Number.toText_natCast n hn]
  refine congrArg (fun text => (Except.ok text, w')) ?_
  have hopen : js " [#" = js " " ++ js "[#" := by decide
  simp [signedText, Verifier.Block.text, block, hopen]

end Signer

namespace Verifier

theorem ctEqual_eq (a b : JSString) : ctEqual a b = decide (a = b) := by
  by_cases h : a.length = b.length
  · have hd := SecureCompare.differences_eq_zero h
    simp only [SecureCompare.differences, h, ↓reduceIte] at hd
    simp only [ctEqual, h, ne_eq, not_true_eq_false, ↓reduceIte]
    rw [Bool.eq_iff_iff, beq_iff_eq, SecureCompare.foldl_or_eq_zero, decide_eq_true_eq, ← hd]
    simp [SecureCompare.charCodeAt]
  · have hne : a ≠ b := fun he => h (by rw [he])
    simp [ctEqual, h, hne]

theorem canonical_injective {a b : ℕ} {x y : JSString}
    (h : decimal a ++ js "|" ++ x = decimal b ++ js "|" ++ y) : a = b ∧ x = y := by
  have hbar : js "|" = [124] := by decide
  rw [List.append_assoc, List.append_assoc, hbar] at h
  obtain ⟨hn, hrest⟩ := span_unique h (decimal_isDigit a) (decimal_isDigit b)
    (by rintro u ⟨⟩; decide) (by rintro u ⟨⟩; decide)
  exact ⟨decimal_injective hn, (List.cons.inj hrest).2⟩

variable [Platform]

theorem parseMessage_signedText (key : JSString) {n : ℕ} (hn : n ≤ 2 ^ 53) (message : JSString) :
    parseMessage (Signer.signedText key n message) = some ⟨.finite n,
      tagOf key (decimal n ++ js "|" ++ trim message), trim message,
      decimal n ++ js "|" ++ trim message⟩ := by
  have hpayload : trim (trim message ++ js " ") = trim message := by
    rw [trim_append_blank _ _ (by
      rintro u hu
      obtain rfl : u = 32 := by simpa [js, encodePoint] using hu
      decide), trim_trim]
  rw [Signer.signedText, parseMessage_block _ (Signer.block_wellFormed key n (trim message)), hpayload]
  simp only [Signer.block, Number.parseInt_decimal n hn, Number.toText_natCast n hn,
    toUpperCase_tagOf]

/-- The count of a text that is genuine under this key. -/
def genuine (key text : JSString) : Option Number :=
  (parseMessage text).bind fun p => if expectedTag key p = p.tag then some p.n else none

theorem genuine_signedText (key : JSString) {n : ℕ} (hn : n ≤ 2 ^ 53) (message : JSString) :
    genuine key (Signer.signedText key n message) = some (.finite n) := by
  have htag : expectedTag key ⟨.finite n, tagOf key (decimal n ++ js "|" ++ trim message),
      trim message, decimal n ++ js "|" ++ trim message⟩ = tagOf key (decimal n ++ js "|" ++ trim message) :=
    (hexPrefix_eq 4 key _ (by decide)).symm
  rw [genuine, parseMessage_signedText key hn message, Option.bind_some, if_pos htag]

theorem verify_parsed {page : Page} {text : JSString} {p : Parsed} (hkey : trim page.secret ≠ [])
    (hp : parseMessage text = some p) :
    (expectedTag (trim page.secret) p = p.tag →
      (verify page text).1 = (page.saveSecretMaybe).advance p.n ∧
      (verify page text).2.kind = js "ok" ∧ (verify page text).2.verdict = js "✅ Authentic") ∧
    (expectedTag (trim page.secret) p ≠ p.tag → (verify page text).1 = page.saveSecretMaybe ∧
      (verify page text).2.kind = js "bad") ∧
    (verify page text).2.seq = some (checkSequence page.lastN p.n) := by
  have hkey' : ¬ trim (page.saveSecretMaybe).secret = [] := hkey
  by_cases ht : expectedTag (trim page.secret) p = p.tag <;>
    simp [verify, hkey, hp, ctEqual_eq, ht, Page.lastN, Page.saveSecretMaybe]

end Verifier

namespace Signer

/-- **What the bot signs, the verifier accepts.** For every message and every number, the page finds
the block that `sign` wrote, reads back the number and the payload, and computes the same tag; and
the signed text determines both. -/
theorem sign_verifies [Platform] (message : JSString) (w : World) (n : ℕ) (hn : n < 2 ^ 53)
    (hkey : Config.isMissing (w.store .verifierKey) = false)
    (hclaim : (claim.run host w).outcome = .ok (some (.finite n))) (page : Verifier.Page)
    (hsecret : trim page.secret = w.store.secret .verifierKey) :
    (∃ text p, ((sign message).run host w).outcome = .ok text ∧
      Verifier.parseMessage text = some p ∧ p.n = .finite n ∧ p.payload = trim message ∧
      p.tag = tagOf (w.store.secret .verifierKey) p.canonical ∧
      Verifier.expectedTag (trim page.secret) p = p.tag ∧
      text = trim message ++ js " [#" ++ decimal n ++ js " " ++ p.tag ++ js "]" ∧
      (Verifier.verify page text).2.verdict = js "✅ Authentic") ∧
    ∀ (a b : ℕ) (x y : JSString), a < 2 ^ 53 → b < 2 ^ 53 →
      Number.toText (.finite a) ++ js "|" ++ x = Number.toText (.finite b) ++ js "|" ++ y →
        a = b ∧ x = y := by
  refine ⟨?_, fun a b x y ha hb h => ?_⟩
  · have hexec : claim.exec host w = (.ok (some (.finite n)), (claim.run host w).state) :=
      Prod.ext hclaim rfl
    have hsign := exec_sign message hn.le hkey hexec
    have hparse := Verifier.parseMessage_signedText (w.store.secret .verifierKey) hn.le message
    have hpage : trim page.secret ≠ [] := hsecret ▸ Store.secret_ne_nil hkey
    have htag : Verifier.expectedTag (trim page.secret) ⟨.finite n,
        tagOf (w.store.secret .verifierKey) (decimal n ++ js "|" ++ trim message), trim message,
        decimal n ++ js "|" ++ trim message⟩ =
        tagOf (w.store.secret .verifierKey) (decimal n ++ js "|" ++ trim message) := by
      rw [hsecret]
      exact (hexPrefix_eq 4 _ _ (by decide)).symm
    refine ⟨_, _, congrArg Prod.fst hsign, hparse, rfl, rfl, rfl, htag, ?_,
      ((Verifier.verify_parsed hpage hparse).1 htag).2.2⟩
    have hopen : js " [#" = js " " ++ js "[#" := by decide
    simp [signedText, Verifier.Block.text, block, hopen]
  · rw [Number.toText_natCast a ha.le, Number.toText_natCast b hb.le] at h
    exact Verifier.canonical_injective h

section
open AppsScript

theorem sign_verifies_first :
    (∃ text p, ((sign (js "SPY 512.30")).run host ⟨sampleStore, sampleEnv⟩).outcome = .ok text ∧
      Verifier.parseMessage text = some p ∧ p.n = .finite (1 : ℕ) ∧
      p.payload = trim (js "SPY 512.30") ∧ p.tag = tagOf (sampleStore.secret .verifierKey) p.canonical ∧
      Verifier.expectedTag (trim (js " key\n")) p = p.tag ∧
      text = trim (js "SPY 512.30") ++ js " [#" ++ decimal 1 ++ js " " ++ p.tag ++ js "]" ∧
      (Verifier.verify ⟨js " key\n", false, none, none⟩ text).2.verdict = js "✅ Authentic") := by
  have hclaim : (claim.run host ⟨sampleStore, sampleEnv⟩).outcome = .ok (some (.finite (1 : ℕ))) :=
    congrArg Prod.fst (exec_claim (w := ⟨sampleStore, sampleEnv⟩) (c := 0) (by decide +kernel)
      (by decide) (by decide) rfl rfl)
  exact (sign_verifies (js "SPY 512.30") ⟨sampleStore, sampleEnv⟩ 1 (by decide) (by decide)
    hclaim ⟨js " key\n", false, none, none⟩ (by decide)).1

end
end Signer
end Spazito
