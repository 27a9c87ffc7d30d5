import Spazito.EcmaCase

set_option autoImplicit false

/-!
# Reading a URL

`decodeURIComponent`, and the parts of an address as its server takes them. What `encodeURIComponent`
wrote is read back, and never as anything but the component.
-/
namespace Ecma

/-! ## Decoding -/

/-- `%XX` -/
def readByte : JSString → Option (ℕ × JSString)
  | 37 :: a :: b :: s =>
    if isHexDigit a && isHexDigit b then some (16 * hexValue a + hexValue b, s) else none
  | _ => none

def readTail (s : JSString) : Option (ℕ × JSString) := do
  let (b, rest) ← readByte s
  if 0x80 ≤ b ∧ b < 0xC0 then return (b - 0x80, rest) else none

/-- One code point in UTF-8, in its shortest form. -/
def readPoint (s : JSString) : Option (ℕ × JSString) := do
  let (b, s) ← readByte s
  if b < 0x80 then return (b, s)
  else if 0xC0 ≤ b ∧ b < 0xE0 then
    let (x, s) ← readTail s
    let p := (b - 0xC0) * 0x40 + x
    if 0x80 ≤ p then return (p, s) else none
  else if 0xE0 ≤ b ∧ b < 0xF0 then
    let (x, s) ← readTail s
    let (y, s) ← readTail s
    let p := ((b - 0xE0) * 0x40 + x) * 0x40 + y
    if 0x800 ≤ p ∧ ¬ (0xD800 ≤ p ∧ p < 0xE000) then return (p, s) else none
  else if 0xF0 ≤ b ∧ b < 0xF8 then
    let (x, s) ← readTail s
    let (y, s) ← readTail s
    let (z, s) ← readTail s
    let p := (((b - 0xF0) * 0x40 + x) * 0x40 + y) * 0x40 + z
    if 0x10000 ≤ p ∧ p < 0x110000 then return (p, s) else none
  else none

/-- Each round takes at least one unit. -/
def decodeWithin : ℕ → JSString → Option JSString
  | 0, _ => none
  | _ + 1, [] => some []
  | n + 1, u :: s =>
    if u = 37 then do
      let (p, rest) ← readPoint (u :: s)
      return encodePoint p ++ (← decodeWithin n rest)
    else do return u :: (← decodeWithin n s)

/-- `none` is the URIError. -/
def decodeURIComponent (s : JSString) : Option JSString := decodeWithin (s.length + 1) s

theorem readByte_append {b : ℕ} {x y : CodeUnit} (h : readByte [37, x, y] = some (b, [])) (s : JSString) :
    readByte (37 :: x :: y :: s) = some (b, s) := by
  rw [readByte] at h ⊢
  split_ifs at h ⊢
  rw [(Prod.mk.inj (Option.some.inj h)).1]

theorem readByte_percentByte {b : ℕ} (hb : b < 256) (s : JSString) :
    readByte (percentByte b ++ s) = some (b, s) := by
  have hall : ∀ b : Fin 256, readByte (percentByte b) = some (b.val, []) := by decide +kernel
  exact readByte_append (hall ⟨b, hb⟩) s

theorem readTail_percentByte {x : ℕ} (hx : x < 0x40) (s : JSString) :
    readTail (percentByte (0x80 + x) ++ s) = some (x, s) := by
  have hb : 0x80 ≤ 0x80 + x ∧ 0x80 + x < 0xC0 := by omega
  simp only [readTail, readByte_percentByte (show 0x80 + x < 256 by omega) s, Option.bind_eq_bind,
    Option.bind_some, if_pos hb, Option.pure_def, Nat.add_sub_cancel_left]

theorem readPoint_utf8 {p : ℕ} (hp : p < 0x110000) (hsurrogate : ¬ (0xD800 ≤ p ∧ p < 0xE000))
    (s : JSString) : readPoint ((utf8 p).flatMap percentByte ++ s) = some (p, s) := by
  unfold utf8
  split_ifs with h1 h2 h3
  · simp only [List.flatMap_cons, List.flatMap_nil, List.append_nil, readPoint,
      readByte_percentByte (show p < 256 by omega) s, Option.bind_eq_bind, Option.bind_some, if_pos h1,
      Option.pure_def]
  · have hlead : 0xC0 ≤ 0xC0 + p / 0x40 ∧ 0xC0 + p / 0x40 < 0xE0 := by omega
    have hvalue : (0xC0 + p / 0x40 - 0xC0) * 0x40 + p % 0x40 = p := by omega
    simp only [List.flatMap_cons, List.flatMap_nil, List.append_nil, List.append_assoc, readPoint,
      readByte_percentByte (show 0xC0 + p / 0x40 < 256 by omega), Option.bind_eq_bind, Option.bind_some,
      if_neg (show ¬ 0xC0 + p / 0x40 < 0x80 by omega), if_pos hlead,
      readTail_percentByte (show p % 0x40 < 0x40 by omega), hvalue, if_pos (show 0x80 ≤ p by omega),
      Option.pure_def]
  · have hlead : 0xE0 ≤ 0xE0 + p / 0x1000 ∧ 0xE0 + p / 0x1000 < 0xF0 := by omega
    have hvalue : ((0xE0 + p / 0x1000 - 0xE0) * 0x40 + p / 0x40 % 0x40) * 0x40 + p % 0x40 = p := by omega
    have hvalid : 0x800 ≤ p ∧ ¬ (0xD800 ≤ p ∧ p < 0xE000) := ⟨by omega, hsurrogate⟩
    simp only [List.flatMap_cons, List.flatMap_nil, List.append_nil, List.append_assoc, readPoint,
      readByte_percentByte (show 0xE0 + p / 0x1000 < 256 by omega), Option.bind_eq_bind,
      Option.bind_some, if_neg (show ¬ 0xE0 + p / 0x1000 < 0x80 by omega),
      if_neg (show ¬ (0xC0 ≤ 0xE0 + p / 0x1000 ∧ 0xE0 + p / 0x1000 < 0xE0) by omega), if_pos hlead,
      readTail_percentByte (show p / 0x40 % 0x40 < 0x40 by omega),
      readTail_percentByte (show p % 0x40 < 0x40 by omega), hvalue, if_pos hvalid, Option.pure_def]
  · have hlead : 0xF0 ≤ 0xF0 + p / 0x40000 ∧ 0xF0 + p / 0x40000 < 0xF8 := by omega
    have hvalue : (((0xF0 + p / 0x40000 - 0xF0) * 0x40 + p / 0x1000 % 0x40) * 0x40 +
        p / 0x40 % 0x40) * 0x40 + p % 0x40 = p := by omega
    have hvalid : 0x10000 ≤ p ∧ p < 0x110000 := ⟨by omega, hp⟩
    simp only [List.flatMap_cons, List.flatMap_nil, List.append_nil, List.append_assoc, readPoint,
      readByte_percentByte (show 0xF0 + p / 0x40000 < 256 by omega), Option.bind_eq_bind,
      Option.bind_some, if_neg (show ¬ 0xF0 + p / 0x40000 < 0x80 by omega),
      if_neg (show ¬ (0xC0 ≤ 0xF0 + p / 0x40000 ∧ 0xF0 + p / 0x40000 < 0xE0) by omega),
      if_neg (show ¬ (0xE0 ≤ 0xF0 + p / 0x40000 ∧ 0xF0 + p / 0x40000 < 0xF0) by omega), if_pos hlead,
      readTail_percentByte (show p / 0x1000 % 0x40 < 0x40 by omega),
      readTail_percentByte (show p / 0x40 % 0x40 < 0x40 by omega),
      readTail_percentByte (show p % 0x40 < 0x40 by omega), hvalue, if_pos hvalid, Option.pure_def]

theorem flatMap_encodePoint (s : JSString) : (codePoints s).flatMap encodePoint = s := by
  induction s using codePoints.induct with
  | case1 => rfl
  | case2 u => simp [codePoints, encodePoint_toNat]
  | case3 u v s h ih =>
    rw [codePoints, if_pos h, List.flatMap_cons, ih]
    simp only [Bool.and_eq_true, isHighSurrogate, isLowSurrogate, decide_eq_true_eq,
      UInt16.le_iff_toNat_le] at h
    simp at h
    have hhigh : 0xD800 + (0x10000 + (u.toNat - 0xD800) * 0x400 + (v.toNat - 0xDC00) - 0x10000) / 0x400 =
        u.toNat := by omega
    have hlow : 0xDC00 + (0x10000 + (u.toNat - 0xD800) * 0x400 + (v.toNat - 0xDC00) - 0x10000) % 0x400 =
        v.toNat := by omega
    rw [encodePoint, if_neg (by omega), hhigh, hlow]
    simp
  | case4 u v s h ih =>
    rw [codePoints, if_neg h, List.flatMap_cons, ih, encodePoint_toNat]
    rfl

/-- **What is encoded is decoded.** -/
theorem decodeURIComponent_encode {s t : JSString} (h : encodeURIComponent s = some t) :
    decodeURIComponent t = some s := by
  have hlt := codePoints_lt s
  rw [← flatMap_encodePoint s]
  unfold encodeURIComponent at h
  generalize codePoints s = ps at h hlt
  suffices hall : ∀ n, t.length < n → decodeWithin n t = some (ps.flatMap encodePoint) from
    hall _ (Nat.lt_succ_self _)
  induction ps generalizing t with
  | nil =>
    obtain rfl : [] = t := by simpa using h
    intro n hn
    obtain ⟨n, rfl⟩ := Nat.exists_eq_succ_of_ne_zero (Nat.ne_of_gt hn)
    rfl
  | cons p ps ih =>
    rw [List.foldr_cons, Option.bind_eq_some_iff] at h
    obtain ⟨rest, hrest, hp⟩ := h
    have hrest := ih hrest fun q hq => hlt q (List.mem_cons_of_mem p hq)
    intro n hn
    obtain ⟨n, rfl⟩ := Nat.exists_eq_succ_of_ne_zero (Nat.ne_zero_of_lt hn)
    split_ifs at hp with hsurrogate hplain
    · obtain rfl := Option.some.inj hp
      have hne : ¬ UInt16.ofNat p = 37 := by
        intro heq
        rw [heq] at hplain
        exact absurd hplain.2 (by decide)
      have hpoint : encodePoint p = [UInt16.ofNat p] := encodePoint_small (by omega)
      rw [decodeWithin, if_neg hne, hrest n (by simpa using hn), List.flatMap_cons, hpoint]
      rfl
    · obtain rfl := Option.some.inj hp
      have hpoint := readPoint_utf8 (hlt p List.mem_cons_self) hsurrogate rest
      obtain ⟨b, bs, hb⟩ : ∃ b bs, utf8 p = b :: bs := by
        unfold utf8
        split_ifs <;> exact ⟨_, _, rfl⟩
      have hform : (utf8 p).flatMap percentByte ++ rest =
          37 :: ((percentByte b).drop 1 ++ bs.flatMap percentByte ++ rest) := by
        rw [hb]
        rfl
      have hshorter : rest.length < n := by
        rw [hform, List.length_cons, List.length_append] at hn
        omega
      rw [hform] at hpoint ⊢
      simp only [decodeWithin, ↓reduceIte, hpoint, Option.bind_eq_bind, Option.bind_some,
        hrest n hshorter, Option.pure_def, List.flatMap_cons]

/-! ## The parts of a URL -/

def cut (mark : CodeUnit) : JSString → JSString × JSString
  | [] => ([], [])
  | u :: s => if u = mark then ([], s) else (u :: (cut mark s).1, (cut mark s).2)

/-- A query parameter: `+` stands for a space. -/
def readField (s : JSString) : Option JSString :=
  decodeURIComponent (s.map fun u => if u = 43 then 32 else u)

def readParameter (s : JSString) : Option (JSString × JSString) := do
  return (← readField (cut 61 s).1, ← readField (cut 61 s).2)

structure Url where
  scheme : JSString
  host : JSString
  path : List JSString
  query : List (JSString × JSString)

/-- A path without its dot segments: each `..` takes back the segment before it, and at the end of the
path either of them leaves an empty one. -/
def withoutDots (kept : List JSString) : List JSString → List JSString
  | [] => kept
  | segment :: rest =>
    if segment = js ".." then
      if rest = [] then kept.dropLast ++ [[]] else withoutDots kept.dropLast rest
    else if segment = js "." then
      if rest = [] then kept ++ [[]] else withoutDots kept rest
    else withoutDots (kept ++ [segment]) rest

example : withoutDots [] [js "a", js "..", js ".", js "b", js "."] = [js "b", []] := by decide

/-- `scheme://host/path?query`, without the fragment. A dot segment is one also when it is
percent-encoded. -/
def Url.read (s : JSString) : Option Url := do
  let (address, query) := cut 63 (cut 35 s).1
  let (scheme, rest) := cut 58 address
  match rest with
  | 47 :: 47 :: rest =>
    let path ← (splitText [47] (cut 47 rest).2).mapM decodeURIComponent
    let parameters ← if query = [] then some [] else (splitText [38] query).mapM readParameter
    return ⟨scheme, (cut 47 rest).1, withoutDots [] path, parameters⟩
  | _ => none

theorem withoutDots_plain {path : List JSString} (h : js "." ∉ path ∧ js ".." ∉ path)
    (kept : List JSString) : withoutDots kept path = kept ++ path := by
  induction path generalizing kept with
  | nil => exact (List.append_nil kept).symm
  | cons segment rest ih =>
    simp only [List.mem_cons, not_or] at h
    obtain ⟨⟨hdot, hrest⟩, hdots, hrest'⟩ := h
    rw [withoutDots, if_neg (Ne.symm hdots), if_neg (Ne.symm hdot), ih ⟨hrest, hrest'⟩,
      List.append_assoc, List.singleton_append]

theorem unmarked {marks s : JSString} (h : (marks.all fun mark => !s.contains mark) = true) :
    ∀ mark ∈ marks, mark ∉ s := by
  intro mark hmark hmem
  have := List.all_eq_true.mp h mark hmark
  simp [hmem] at this

theorem cut_append {mark : CodeUnit} {s : JSString} (hs : mark ∉ s) (t : JSString) :
    cut mark (s ++ mark :: t) = (s, t) := by
  induction s with
  | nil => simp [cut]
  | cons u s ih =>
    rw [List.mem_cons, not_or] at hs
    rw [List.cons_append, cut, if_neg (Ne.symm hs.1), ih hs.2]

theorem cut_absent {mark : CodeUnit} {s : JSString} (hs : mark ∉ s) : cut mark s = (s, []) := by
  induction s with
  | nil => rfl
  | cons u s ih =>
    rw [List.mem_cons, not_or] at hs
    rw [cut, if_neg (Ne.symm hs.1), ih hs.2]

theorem not_mem_encoded {s t : JSString} (h : encodeURIComponent s = some t) {u : CodeUnit}
    (hu : (isUnreserved u || u == 37) = false) : u ∉ t := by
  intro hmem
  rw [encodeURIComponent_units s t h u hmem] at hu
  cases hu

theorem readField_encode {s t : JSString} (h : encodeURIComponent s = some t) : readField t = some s := by
  have hplus : (43 : CodeUnit) ∉ t := not_mem_encoded h (by decide)
  have hsame : t.map (fun u => if u = 43 then 32 else u) = t := by
    refine (List.map_congr_left fun u hu => ?_).trans (List.map_id t)
    rw [if_neg (by rintro rfl; exact hplus hu), id]
  rw [readField, hsame, decodeURIComponent_encode h]

theorem readParameter_eq {name field n v : JSString} (hname : 61 ∉ name) (hn : readField name = some n)
    (hv : readField field = some v) : readParameter (name ++ 61 :: field) = some (n, v) := by
  simp [readParameter, cut_append hname, hn, hv]

namespace Url

variable {scheme host : JSString} {segments fields path : List JSString}
  {query : List (JSString × JSString)}

theorem not_mem_joined {mark sep : CodeUnit} (hsep : mark ≠ sep) {xss : List JSString}
    (h : ∀ xs ∈ xss, mark ∉ xs) : mark ∉ [sep].intercalate xss := by
  intro hmem
  rcases mem_intercalate hmem with hmem | ⟨xs, hxs, hmem⟩
  · exact hsep (List.mem_singleton.mp hmem)
  · exact h xs hxs hmem

theorem read_path (hscheme : ∀ mark ∈ [35, 58, 63], mark ∉ scheme)
    (hhost : ∀ mark ∈ [35, 47, 63], mark ∉ host) (hne : segments ≠ [])
    (hsegments : ∀ mark ∈ [35, 47, 63], ∀ s ∈ segments, mark ∉ s)
    (hpath : segments.mapM decodeURIComponent = some path) :
    read (scheme ++ 58 :: 47 :: 47 :: (host ++ 47 :: [47].intercalate segments)) =
      some ⟨scheme, host, withoutDots [] path, []⟩ := by
  have hmark {mark : CodeUnit} (hs : mark ∉ scheme) (hh : mark ∉ host) (hp : ∀ s ∈ segments, mark ∉ s)
      (h58 : mark ≠ 58) (h47 : mark ≠ 47) :
      mark ∉ scheme ++ 58 :: 47 :: 47 :: (host ++ 47 :: [47].intercalate segments) := by
    have hjoined := not_mem_joined h47 hp
    simp [hs, hh, h58, h47, hjoined]
  have hhash := cut_absent (hmark (hscheme 35 (by simp)) (hhost 35 (by simp)) (hsegments 35 (by simp))
    (by decide) (by decide))
  have hquery := cut_absent (hmark (hscheme 63 (by simp)) (hhost 63 (by simp)) (hsegments 63 (by simp))
    (by decide) (by decide))
  have hsplit : splitText [47] ([47].intercalate segments) = segments :=
    splitText_intercalate (a := []) (b := []) List.not_mem_nil hne (hsegments 47 (by simp))
  simp [read, hhash, hquery, cut_append (hscheme 58 (by simp)), cut_append (hhost 47 (by simp)), hsplit,
    hpath]

theorem read_query (hscheme : ∀ mark ∈ [35, 58, 63], mark ∉ scheme)
    (hhost : ∀ mark ∈ [35, 47, 63], mark ∉ host) (hne : segments ≠ [])
    (hsegments : ∀ mark ∈ [35, 47, 63], ∀ s ∈ segments, mark ∉ s)
    (hpath : segments.mapM decodeURIComponent = some path) (hsome : [38].intercalate fields ≠ [])
    (hfields : ∀ mark ∈ [35, 38], ∀ s ∈ fields, mark ∉ s)
    (hquery : fields.mapM readParameter = some query) :
    read (scheme ++ 58 :: 47 :: 47 :: (host ++ 47 :: ([47].intercalate segments ++
      63 :: [38].intercalate fields))) = some ⟨scheme, host, withoutDots [] path, query⟩ := by
  have hjoined := not_mem_joined (show (63 : CodeUnit) ≠ 47 by decide) (hsegments 63 (by simp))
  have hpaths := not_mem_joined (show (35 : CodeUnit) ≠ 47 by decide) (hsegments 35 (by simp))
  have hparams := not_mem_joined (show (35 : CodeUnit) ≠ 38 by decide) (hfields 35 (by simp))
  have hhash := cut_absent (show 35 ∉ scheme ++ 58 :: 47 :: 47 :: (host ++ 47 ::
      ([47].intercalate segments ++ 63 :: [38].intercalate fields)) by
    simp [hscheme 35 (by simp), hhost 35 (by simp), hpaths, hparams])
  have hcut : cut 63 (scheme ++ 58 :: 47 :: 47 :: (host ++ 47 :: ([47].intercalate segments ++
      63 :: [38].intercalate fields))) =
      (scheme ++ 58 :: 47 :: 47 :: (host ++ 47 :: [47].intercalate segments),
        [38].intercalate fields) := by
    have h := cut_append
      (s := scheme ++ 58 :: 47 :: 47 :: (host ++ 47 :: [47].intercalate segments))
      (show 63 ∉ _ by simp [hscheme 63 (by simp), hhost 63 (by simp), hjoined]) ([38].intercalate fields)
    simpa using h
  have hne' : fields ≠ [] := by
    rintro rfl
    exact hsome rfl
  have hsplit : splitText [47] ([47].intercalate segments) = segments :=
    splitText_intercalate (a := []) (b := []) List.not_mem_nil hne (hsegments 47 (by simp))
  have hsplit' : splitText [38] ([38].intercalate fields) = fields :=
    splitText_intercalate (a := []) (b := []) List.not_mem_nil hne' (hfields 38 (by simp))
  simp [read, hhash, hcut, cut_append (hscheme 58 (by simp)), cut_append (hhost 47 (by simp)), hsplit,
    hpath, hsome, hsplit', hquery]

end Url
end Ecma
