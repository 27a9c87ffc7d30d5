import Spazito.EcmaScan
import Spazito.Redactor

set_option autoImplicit false

/-!
# What the redactor looks for

The words of its five patterns, and where each match ends.
-/
namespace Spazito.Redactor
open Ecma Ecma.Regex

/-- The same letters, in either case. -/
def Folds (s w : JSString) : Prop := List.Forall₂ (fun a u => foldCase (· == a) u = true) s w

theorem denotes_anyCase (s : JSString) : Denotes (anyCase s) (Folds s) := by
  induction s with
  | nil =>
    intro c e
    simp [anyCase, Folds, denotes_empty c e]
  | cons a s ih =>
    intro c e
    refine (denotes_unit.seq ih c e).trans (exists_congr fun w => and_congr_left fun _ => ?_)
    constructor
    · rintro ⟨_, y, rfl, ⟨u, hu, rfl⟩, hy⟩
      exact .cons hu hy
    · rintro (_ | ⟨hu, hy⟩)
      exact ⟨_, _, rfl, ⟨_, hu, rfl⟩, hy⟩

theorem isWord_of_foldCase {a u : CodeUnit} (ha : isWord a = true)
    (h : foldCase (· == a) u = true) : isWord u = true := by
  simp only [foldCase, Bool.or_eq_true, Bool.and_eq_true, beq_iff_eq] at h
  rcases h with (rfl | ⟨hu, -⟩) | ⟨hu, -⟩
  · exact ha
  · simp [isWord, hu]
  · simp [isWord, hu]

theorem Folds.isWord {s w : JSString} (h : Folds s w) (hs : s.all isWord = true) :
    ∀ u ∈ w, isWord u = true := by
  induction h with
  | nil => simp
  | cons hu _ ih =>
    rw [List.all_cons, Bool.and_eq_true] at hs
    exact List.forall_mem_cons.mpr ⟨isWord_of_foldCase hs.1 hu, ih hs.2⟩

/-! ## Web addresses -/

def IsScheme (h : JSString) : Prop :=
  ∃ a b, h = a ++ (b ++ js "://") ∧ Folds (js "http") a ∧
    (b = [] ∨ ∃ u, foldCase (· == 115) u = true ∧ b = [u])

def IsUrl (w : JSString) : Prop := ∃ h z, w = h ++ z ∧ IsScheme h ∧ ∀ u ∈ z, isSpace u = false

theorem reads_url : Reads urlPattern IsUrl false false := by
  refine ((denotes_anyCase _).seq (denotes_unit.opt.seq
    ((denotes_word _).seq (denotes_rep_unit 0 none (by simp))))).reads.congr fun w => ?_
  constructor
  · rintro ⟨a, _, rfl, ha, b, _, rfl, hb, _, z, rfl, rfl, -, -, hz⟩
    exact ⟨a ++ (b ++ js "://"), z, by simp, ⟨a, b, rfl, ha, hb⟩, by simpa using hz⟩
  · rintro ⟨_, z, rfl, ⟨a, b, rfl, ha, hb⟩, hz⟩
    exact ⟨a, b ++ (js "://" ++ z), by simp, ha, b, _, rfl, hb, _, z, rfl, rfl, by simp, by simp,
      by simpa using hz⟩

theorem IsScheme.units {h : JSString} (hh : IsScheme h) :
    ∀ u ∈ h, (isWord u || u == 58 || u == 47) = true := by
  obtain ⟨a, b, rfl, ha, hb⟩ := hh
  intro u hu
  rcases List.mem_append.mp hu with hu | hu
  · simp [ha.isWord (by decide) u hu]
  · rcases List.mem_append.mp hu with hu | hu
    · rcases hb with rfl | ⟨s, hs, rfl⟩
      · simp at hu
      · obtain rfl := List.mem_singleton.mp hu
        simp [isWord_of_foldCase (a := 115) (by decide) hs]
    · exact List.all_eq_true.mp (show (js "://").all
        (fun u => isWord u || u == 58 || u == 47) = true by decide) u hu

theorem isScheme_ne_nil : ¬ IsScheme [] := by
  rintro ⟨a, b, h, -, -⟩
  have hlen := congrArg List.length h
  rw [List.length_append, List.length_append, show (js "://").length = 3 by decide] at hlen
  simp only [List.length_nil] at hlen
  omega

theorem finds_url : Finds urlPattern IsScheme false false := by
  refine reads_url.finds.of_beginning ?_ fun h hh => ⟨h, [], by simp, hh, by simp⟩
  rintro w ⟨h, z, rfl, hh, -⟩
  exact ⟨h, z, rfl, hh⟩

theorem consumes_url : Consumes urlPattern := by
  refine reads_url.consumes ?_
  rintro ⟨h, z, hnil, hh, -⟩
  exact isScheme_ne_nil ((List.append_eq_nil_iff.mp hnil.symm).1 ▸ hh)

/-! ## Keys -/

def isDelimiter (u : CodeUnit) : Bool := u == 38 || isSpace u || u == 34 || u == 39

def IsKeyName (h : JSString) : Prop := Folds (js "apikey=") h

def IsKey (w : JSString) : Prop := ∃ h z, w = h ++ z ∧ IsKeyName h ∧ ∀ u ∈ z, isDelimiter u = false

theorem reads_apikey : Reads apikeyPattern IsKey false false := by
  refine ((denotes_anyCase _).seq (denotes_rep_unit 0 none (by simp))).reads.congr fun w => ?_
  constructor
  · rintro ⟨h, z, rfl, hh, -, -, hz⟩
    exact ⟨h, z, rfl, hh, by simpa [isDelimiter] using hz⟩
  · rintro ⟨h, z, rfl, hh, hz⟩
    exact ⟨h, z, rfl, hh, by simp, by simp, by simpa [isDelimiter] using hz⟩

theorem finds_apikey : Finds apikeyPattern IsKeyName false false := by
  refine reads_apikey.finds.of_beginning ?_ fun h hh => ⟨h, [], by simp, hh, by simp⟩
  rintro w ⟨h, z, rfl, hh, -⟩
  exact ⟨h, z, rfl, hh⟩

/-! ## Basic credentials -/

def IsBasic (w : JSString) : Prop :=
  ∃ spaces blob, w = js "Basic" ++ (spaces ++ blob) ∧ spaces ≠ [] ∧ (∀ u ∈ spaces, isSpace u = true) ∧
    8 ≤ blob.length ∧ ∀ u ∈ blob, isBase64 u = true

theorem reads_basic : Reads basicPattern IsBasic true false := by
  refine Reads.boundary_seq (Reads.congr ((denotes_word _).seq
    ((denotes_rep_unit 1 none (by simp)).seq (denotes_rep_unit 8 none (by simp)))).reads
    fun w => ?_) ?_
  · constructor
    · rintro ⟨_, _, rfl, rfl, spaces, blob, rfl, ⟨hlen, -, hs⟩, h8, -, hb⟩
      exact ⟨spaces, blob, rfl, List.length_pos_iff.mp hlen, hs, h8, hb⟩
    · rintro ⟨spaces, blob, rfl, hne, hs, h8, hb⟩
      exact ⟨_, _, rfl, rfl, spaces, blob, rfl, ⟨List.length_pos_iff.mpr hne, by simp, hs⟩, h8,
        by simp, hb⟩
  · rintro w ⟨spaces, blob, rfl, -⟩
    rfl

/-! ## Account and key SIDs -/

def isSidUnit (u : CodeUnit) : Bool := foldCase (fun u => isDigit u || (97 ≤ u && u ≤ 102)) u

def IsSid (w : JSString) : Prop :=
  ∃ a x, w = a ++ x ∧ (Folds (js "AC") a ∨ Folds (js "SK") a) ∧ x.length = 32 ∧
    ∀ u ∈ x, isSidUnit u = true

theorem isWord_of_isSidUnit {u : CodeUnit} (h : isSidUnit u = true) : isWord u = true := by
  simp [isSidUnit, foldCase, isWord, isDigit, isUpper, isLower, UInt16.le_iff_toNat_le,
    ← UInt16.toNat_inj] at h ⊢
  omega

theorem IsSid.length {w : JSString} (h : IsSid w) : w.length = 34 := by
  obtain ⟨a, x, rfl, ha, hlen, -⟩ := h
  have h2 : a.length = 2 := ha.elim (fun h => h.length_eq.symm) fun h => h.length_eq.symm
  rw [List.length_append, h2, hlen]

theorem IsSid.isWord {w : JSString} (h : IsSid w) : ∀ u ∈ w, isWord u = true := by
  obtain ⟨a, x, rfl, ha, -, hx⟩ := h
  intro u hu
  rcases List.mem_append.mp hu with hu | hu
  · exact ha.elim (fun h => h.isWord (by decide) u hu) fun h => h.isWord (by decide) u hu
  · exact isWord_of_isSidUnit (hx u hu)

theorem IsSid.ne_nil {w : JSString} (h : IsSid w) : w ≠ [] := by
  rintro rfl
  simpa using h.length

theorem reads_sid : Reads sidPattern IsSid true true := by
  refine Reads.boundary_seq (Reads.congr (Reads.seq ((denotes_anyCase _).alt (denotes_anyCase _))
    (Reads.seq_boundary (denotes_rep_unit 32 (some 32) (by simp)) ?_)) fun w => ?_) ?_
  · rintro x ⟨hlen, -, hx⟩
    rcases List.eq_nil_or_concat x with rfl | ⟨x, u, rfl⟩
    · simp at hlen
    · have hu : isSidUnit u = true := hx u (by simp)
      simpa using isWord_of_isSidUnit hu
  · constructor
    · rintro ⟨a, x, rfl, ha, hlen, hmost, hx⟩
      exact ⟨a, x, rfl, ha, le_antisymm (hmost 32 rfl) hlen, hx⟩
    · rintro ⟨a, x, rfl, ha, hlen, hx⟩
      exact ⟨a, x, rfl, ha, hlen.ge, by simp [hlen], hx⟩
  · intro w hw
    have hword := hw.isWord
    obtain ⟨u, t, rfl⟩ := List.exists_cons_of_ne_nil hw.ne_nil
    simpa using hword u List.mem_cons_self

/-! ## Phone numbers -/

def IsNumber (w : JSString) : Prop :=
  ∃ plus d mid l, w = plus ++ (d :: (mid ++ [l])) ∧ (plus = [] ∨ plus = js "+") ∧ isDigit d = true ∧
    6 ≤ mid.length ∧ (∀ u ∈ mid, isNumberUnit u = true) ∧ isDigit l = true

theorem reads_number : Reads numberPattern IsNumber false false := by
  refine (denotes_unit.opt.seq (denotes_unit.seq
    ((denotes_rep_unit 6 none (by simp)).seq denotes_unit))).reads.congr fun w => ?_
  constructor
  · rintro ⟨plus, _, rfl, hplus, _, _, rfl, ⟨d, hd, rfl⟩, mid, _, rfl, ⟨h6, -, hmid⟩, l, hl, rfl⟩
    refine ⟨plus, d, mid, l, by simp, ?_, hd, h6, hmid, hl⟩
    rcases hplus with rfl | ⟨u, hu, rfl⟩
    · exact .inl rfl
    · obtain rfl : u = 43 := by simpa using hu
      exact .inr rfl
  · rintro ⟨plus, d, mid, l, rfl, hplus, hd, h6, hmid, hl⟩
    refine ⟨plus, _, rfl, ?_, _, _, rfl, ⟨d, hd, rfl⟩, mid, _, rfl, ⟨h6, by simp, hmid⟩, l, hl, rfl⟩
    rcases hplus with rfl | rfl
    · exact .inl rfl
    · exact .inr ⟨43, rfl, rfl⟩

/-! ## The placeholders -/

/-- The words have no brackets, and none of them fits into a placeholder. -/
structure Guarded (L : JSString → Prop) : Prop where
  brackets : ∀ x, L x → 91 ∉ x ∧ 93 ∉ x
  outside : ∀ x, L x → 15 < x.length ∨ ∃ u ∈ x, isLower u = false ∧ u ≠ 32

theorem Guarded.shields {L : JSString → Prop} (h : Guarded L) (mid : JSString)
    (hlen : mid.length ≤ 15) (hmid : (mid.all fun u => isLower u || u == 32) = true) :
    Shields (91 :: (mid ++ [93])) L := by
  refine ⟨91, mid, 93, rfl, by decide, by decide, h.brackets, ?_⟩
  rintro ⟨v, x, z, rfl, hx, -⟩
  rcases h.outside x hx with hlong | ⟨u, hu, hlow, hne⟩
  · simp only [List.length_append] at hlen
    omega
  · have := List.all_eq_true.mp hmid u (by simp [hu])
    simp [hlow, hne] at this

theorem guarded_of_units {L : JSString → Prop} (p : CodeUnit → Bool)
    (hp : p 91 = false ∧ p 93 = false) (hL : ∀ x, L x → ∀ u ∈ x, p u = true)
    (hout : ∀ x, L x → 15 < x.length ∨ ∃ u ∈ x, isLower u = false ∧ u ≠ 32) : Guarded L := by
  refine ⟨fun x hx => ⟨fun hmem => ?_, fun hmem => ?_⟩, hout⟩
  · simpa [hp.1] using hL x hx _ hmem
  · simpa [hp.2] using hL x hx _ hmem

theorem guarded_scheme : Guarded IsScheme := by
  refine guarded_of_units _ (by decide) (fun h hh => hh.units) ?_
  rintro h ⟨a, b, rfl, -⟩
  exact .inr ⟨58, by simp [show js "://" = [58, 47, 47] by decide], by decide, by decide⟩

theorem guarded_basic : Guarded IsBasic := by
  refine guarded_of_units (fun u => isBase64 u || isSpace u) (by decide) ?_ ?_
  · rintro w ⟨spaces, blob, rfl, -, hs, -, hb⟩ u hu
    rcases List.mem_append.mp hu with hu | hu
    · exact List.all_eq_true.mp (show (js "Basic").all
        (fun u => isBase64 u || isSpace u) = true by decide) u hu
    · rcases List.mem_append.mp hu with hu | hu
      · simp [hs u hu]
      · simp [hb u hu]
  · rintro w ⟨spaces, blob, rfl, -⟩
    exact .inr ⟨66, by simp [show js "Basic" = [66, 97, 115, 105, 99] by decide], by decide, by decide⟩

theorem guarded_sid : Guarded IsSid := by
  refine guarded_of_units isWord (by decide) (fun x hx => hx.isWord) fun x hx => .inl ?_
  rw [hx.length]
  decide

theorem guarded_number : Guarded IsNumber := by
  refine guarded_of_units (fun u => isNumberUnit u || u == 43) (by decide) ?_ ?_
  · rintro w ⟨plus, d, mid, l, rfl, hplus, hd, -, hmid, hl⟩ u hu
    have hdigit : ∀ u, isDigit u = true → isNumberUnit u = true := fun u hu => by
      simp [isNumberUnit, hu]
    rcases List.mem_append.mp hu with hu | hu
    · rcases hplus with rfl | rfl
      · simp at hu
      · obtain rfl : u = 43 := List.mem_singleton.mp hu
        rfl
    · simp only [List.mem_cons, List.mem_append, List.not_mem_nil, or_false] at hu
      rcases hu with rfl | hu | rfl
      · simp [hdigit _ hd]
      · simp [hmid u hu]
      · simp [hdigit _ hl]
  · rintro w ⟨plus, d, mid, l, rfl, -, hd, -⟩
    refine .inr ⟨d, by simp, ?_, ?_⟩
    · simp [isDigit, isLower, UInt16.le_iff_toNat_le] at hd ⊢
      omega
    · rintro rfl
      exact absurd hd (by decide)

end Spazito.Redactor
