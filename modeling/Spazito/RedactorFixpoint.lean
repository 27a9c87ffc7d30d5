import Spazito.RedactorWords

set_option autoImplicit false

/-!
# Redacting twice

What each of the five passes leaves of the words of the earlier ones, and exactly when nothing is
left at the end.
-/
namespace Spazito.Redactor
open Ecma Ecma.Regex

/-! ## Where the passes touch -/

theorem greedy_apikey : Greedy apikeyPattern fun u => !isDelimiter u :=
  (greedy_rep_unit 0).seq

theorem greedy_basic : Greedy basicPattern isBase64 :=
  (greedy_rep_unit 8).seq.seq.seq

theorem consumes_apikey : Consumes apikeyPattern := by
  refine reads_apikey.consumes ?_
  rintro ⟨h, z, hnil, hh, -⟩
  rw [(List.append_eq_nil_iff.mp hnil.symm).1] at hh
  exact absurd hh.length_eq (by decide)

theorem isBasic_ne_nil : ¬ IsBasic [] := by
  rintro ⟨spaces, blob, h, -⟩
  exact absurd (List.append_eq_nil_iff.mp h.symm).1 (by decide)

theorem isNumber_ne_nil : ¬ IsNumber [] := by
  rintro ⟨plus, d, mid, l, h, -⟩
  exact absurd (List.append_eq_nil_iff.mp h.symm).2 (by simp)

theorem isSid_ne_nil : ¬ IsSid [] := fun h => h.ne_nil rfl

theorem IsBasic.head {w : JSString} (h : IsBasic w) : ∃ t, w = 66 :: t := by
  obtain ⟨spaces, blob, rfl, -⟩ := h
  exact ⟨js "asic" ++ (spaces ++ blob), by
    rw [show js "Basic" = 66 :: js "asic" by decide, List.cons_append]⟩

theorem apart_basic_basic : Apart basicPattern IsBasic true false := by
  refine ⟨fun _ before m t e he ht x z hxz hx => ?_, by simp⟩
  have hgreedy := greedy_basic _ e he
  obtain ⟨y, rfl⟩ := hx.head
  rw [ht, hxz] at hgreedy
  exact Bool.noConfusion hgreedy

theorem sid_rest {before t : JSString} {e : Cursor}
    (he : (run sidPattern ⟨before, t, []⟩).head? = some e) : e.rest.head?.any isWord = false := by
  obtain ⟨x, -, -, -, hright⟩ := (reads_sid _ e).mp (List.mem_of_head? he)
  exact hright rfl

theorem apart_sid_basic : Apart sidPattern IsBasic true false := by
  refine ⟨fun _ before m t e he ht x z hxz hx => ?_, by simp⟩
  have hrest := sid_rest he
  obtain ⟨y, rfl⟩ := hx.head
  rw [ht, hxz] at hrest
  exact Bool.noConfusion hrest

theorem apart_sid_sid : Apart sidPattern IsSid true true := by
  constructor
  · intro _ before m t e he ht x z hxz hx
    have hrest := sid_rest he
    have hword := hx.isWord
    obtain ⟨u, x, rfl⟩ := List.exists_cons_of_ne_nil hx.ne_nil
    rw [ht, hxz] at hrest
    simp [hword u (by simp)] at hrest
  · intro _ v x w hrun hx
    obtain ⟨-, -, -, -, hleft, -⟩ := (reads_sid.finds _ _).mp hrun
    have hword := hx.isWord
    rcases List.eq_nil_or_concat x with rfl | ⟨x, u, rfl⟩
    · exact hx.ne_nil rfl
    · have hbefore := hleft rfl
      simp [hword u (by simp)] at hbefore

/-! ## Keys with their placeholder -/

def keyText : JSString := js "apikey=REDACTED"

def Settled (t : JSString) : Prop :=
  ∀ v h z, t = v ++ (h ++ z) → IsKeyName h → h = js "apikey=" ∧
    ∃ z', z = js "REDACTED" ++ z' ∧ z'.head?.all isDelimiter = true

theorem Settled.suffix {v t : JSString} (h : Settled (v ++ t)) : Settled t := by
  intro v' x z ht hx
  exact h (v ++ v') x z (by rw [ht, List.append_assoc]) hx

theorem Folds.append {s t w : JSString} (h : Folds (s ++ t) w) :
    ∃ x y, w = x ++ y ∧ Folds s x ∧ Folds t y := by
  induction s generalizing w with
  | nil => exact ⟨[], w, rfl, .nil, h⟩
  | cons u s ih =>
    rcases h with _ | ⟨hu, h⟩
    obtain ⟨x, y, rfl, hx, hy⟩ := ih h
    exact ⟨_ :: x, y, rfl, .cons hu hx, hy⟩

theorem IsKeyName.split {h : JSString} (hh : IsKeyName h) :
    ∃ x, h = x ++ [61] ∧ x.length = 6 ∧ ∀ u ∈ x, isWord u = true := by
  rw [IsKeyName, show js "apikey=" = js "apikey" ++ [61] by decide] at hh
  obtain ⟨x, y, rfl, hx, hy⟩ := hh.append
  rcases hy with _ | ⟨hu, hnil⟩
  cases hnil
  rename_i u
  have hu : u = 61 := by
    simp only [foldCase, Bool.or_eq_true, Bool.and_eq_true, beq_iff_eq] at hu
    rcases hu with (hu | ⟨hup, hu⟩) | ⟨hlow, hu⟩
    · exact hu
    · obtain rfl : u = 61 - 32 := eq_sub_of_add_eq hu
      exact absurd hup (by decide)
    · obtain rfl : u = 61 + 32 := sub_eq_iff_eq_add.mp hu
      exact absurd hlow (by decide)
  exact ⟨x, by rw [hu], hx.length_eq.symm, hx.isWord (by decide)⟩

theorem IsKeyName.units {h : JSString} (hh : IsKeyName h) : ∀ u ∈ h, (isWord u || u == 61) = true := by
  obtain ⟨x, rfl, -, hx⟩ := hh.split
  intro u hu
  rcases List.mem_append.mp hu with hu | hu
  · simp [hx u hu]
  · obtain rfl := List.mem_singleton.mp hu
    rfl

/-- No match begins inside a settled value, or right after it. -/
def Skips (r : Regex) : Prop :=
  ∀ before z₁ z₂ z, js "REDACTED" = z₁ ++ z₂ → z.head?.all isDelimiter = true →
    run r ⟨z₁.reverse ++ ((js "apikey=").reverse ++ before), z₂ ++ z, []⟩ = []

theorem settled_joined {r : Regex} {before t last mid : JSString} {hits : List (JSString × JSString)}
    (hr : Skips r) (hmid : 61 ∉ mid) (h : Scan r before t hits last) (ht : Settled t) :
    Settled (joined (91 :: (mid ++ [93])) hits last) := by
  induction h with
  | done _ => exact ht
  | @hit before gap m t last hits e hgap hm he _ _ ih =>
    intro v h z hjoined hh
    have hbracket : ∀ b, (isWord b || b == 61) = false → b ∉ h := fun b hb hmem => by
      simp [hh.units b hmem] at hb
    have hsplit : gap ++ 91 :: (mid ++ 93 :: joined (91 :: (mid ++ [93])) hits last) = v ++ (h ++ z) := by
      rw [← hjoined, joined]
      simp
    rcases word_beside (hbracket 91 (by decide)) hsplit with ⟨z₁, rfl, rfl⟩ | ⟨v', rfl, hrest⟩
    · obtain ⟨rfl, z', hz, hdelim⟩ := ht v h (z₁ ++ (m ++ t)) (by simp) hh
      refine ⟨rfl, ?_⟩
      rcases List.append_eq_append_iff.mp hz with ⟨z₂, hred, hz'⟩ | ⟨z₂, rfl, hz'⟩
      · -- The match would begin inside the value.
        have hnone := hr (v.reverse ++ before) z₁ z₂ z' hred hdelim
        rw [← hz'] at hnone
        have hcursor : (v ++ (js "apikey=" ++ z₁)).reverse ++ before =
            z₁.reverse ++ ((js "apikey=").reverse ++ (v.reverse ++ before)) := by simp
        rw [hcursor, hnone] at he
        simp at he
      · cases z₂ with
        | nil =>
          have hnone := hr (v.reverse ++ before) (js "REDACTED") [] z' (by simp) hdelim
          rw [List.nil_append] at hz'
          rw [List.nil_append, hz'] at hnone
          have hcursor : (v ++ (js "apikey=" ++ (js "REDACTED" ++ []))).reverse ++ before =
              (js "REDACTED").reverse ++ ((js "apikey=").reverse ++ (v.reverse ++ before)) := by simp
          rw [hcursor, hnone] at he
          simp at he
        | cons u z₂ =>
          rw [hz'] at hdelim
          exact ⟨u :: z₂ ++ 91 :: (mid ++ 93 :: joined (91 :: (mid ++ [93])) hits last), by simp,
            by simpa using hdelim⟩
    · rcases word_beside (hbracket 93 (by decide)) hrest with ⟨z₁, rfl, -⟩ | ⟨v'', rfl, hlater⟩
      · obtain ⟨x, rfl, -⟩ := hh.split
        exact absurd (by simp) hmid
      · have hsuffix : Settled ((gap ++ m) ++ t) := by simpa using ht
        exact ih hsuffix.suffix v'' h z hlater hh

theorem settled_head {z₁ z₂ z : JSString} (hred : js "REDACTED" = z₁ ++ z₂)
    (hz : z.head?.all isDelimiter = true) {u : CodeUnit} {t : JSString} (h : z₂ ++ z = u :: t) :
    u ∈ js "REDACTED" ∨ isDelimiter u = true := by
  cases z₂ with
  | nil =>
    rw [show z = u :: t from h] at hz
    exact .inr (by simpa using hz)
  | cons y z₂ =>
    obtain ⟨rfl, -⟩ : y = u ∧ z₂ ++ z = t := by simpa using h
    exact .inl (by simp [hred])

theorem skips_of_head {r : Regex} {L : JSString → Prop} {left right : Bool}
    (hr : Finds r L left right) (hL : ∀ x, L x → ∃ u t, x = u :: t ∧ u ∉ js "REDACTED" ∧
      isDelimiter u = false) : Skips r := by
  intro before z₁ z₂ z hred hz
  by_contra hne
  obtain ⟨x, w, hx, hword, -⟩ := (hr _ _).mp hne
  obtain ⟨u, t, rfl, hout, hdelim⟩ := hL x hword
  rcases settled_head hred hz hx with h | h
  · exact hout h
  · simp [h] at hdelim

theorem skips_basic : Skips basicPattern := by
  refine skips_of_head reads_basic.finds fun x hx => ?_
  obtain ⟨t, rfl⟩ := hx.head
  exact ⟨66, t, rfl, by decide, by decide⟩

theorem IsNumber.head {w : JSString} (h : IsNumber w) : ∃ u t, w = u :: t ∧
    (u = 43 ∨ isDigit u = true) := by
  obtain ⟨plus, d, mid, l, rfl, hplus, hd, -⟩ := h
  rcases hplus with rfl | rfl
  · exact ⟨d, _, rfl, .inr hd⟩
  · exact ⟨43, _, rfl, .inl rfl⟩

theorem skips_number : Skips numberPattern := by
  refine skips_of_head reads_number.finds fun x hx => ?_
  obtain ⟨u, t, rfl, rfl | hu⟩ := hx.head
  · exact ⟨43, t, rfl, by decide, by decide⟩
  · refine ⟨u, t, rfl, fun hmem => ?_, ?_⟩
    · have hletters : (js "REDACTED").all (fun u => !isDigit u) = true := by decide
      simpa [hu] using List.all_eq_true.mp hletters u hmem
    · simp [isDigit, isDelimiter, isSpace, UInt16.le_iff_toNat_le, ← UInt16.toNat_inj] at hu ⊢
      omega

theorem IsSid.head {w : JSString} (h : IsSid w) : ∃ u t, w = u :: t ∧
    (foldCase (· == 65) u || foldCase (· == 83) u) = true := by
  obtain ⟨a, x, rfl, ha, -⟩ := h
  rcases ha with ha | ha
  · rw [show js "AC" = [65, 67] by decide] at ha
    rcases ha with _ | ⟨hu, -⟩
    exact ⟨_, _, rfl, by simp [hu]⟩
  · rw [show js "SK" = [83, 75] by decide] at ha
    rcases ha with _ | ⟨hu, -⟩
    exact ⟨_, _, rfl, by simp [hu]⟩

theorem skips_sid : Skips sidPattern := by
  intro before z₁ z₂ z hred hz
  by_contra hne
  obtain ⟨x, w, hx, hword, hleft, -⟩ := (reads_sid.finds _ _).mp hne
  rcases List.eq_nil_or_concat z₁ with rfl | ⟨z₁, u, rfl⟩
  · obtain ⟨u, t, rfl, hu⟩ := hword.head
    have hred' : js "REDACTED" = 82 :: js "EDACTED" := by decide
    rw [List.nil_append] at hred
    rw [← hred, hred'] at hx
    obtain ⟨rfl, -⟩ : 82 = u ∧ js "EDACTED" ++ z = t ++ w := by simpa using hx
    exact absurd hu (by decide)
  · have hbefore := hleft rfl
    have hletters : (js "REDACTED").all isWord = true := by decide
    have hu := List.all_eq_true.mp hletters u (by simp [hred])
    simp [hu] at hbefore

theorem settled_replaceAll {r : Regex} {mid t : JSString} (hc : Consumes r) (hr : Skips r)
    (hmid : 61 ∉ mid) (ht : Settled t) : Settled (replaceAll r (91 :: (mid ++ [93])) t) := by
  obtain ⟨hits, last, hscan⟩ := exists_scan hc [] t
  rw [replaceAll, hscan.replaceFrom_eq]
  exact settled_joined hr hmid hscan ht

/-! ## The pass over the keys -/

theorem delimiter_not_word {u : CodeUnit} (h : isDelimiter u = true) :
    (isWord u || u == 58 || u == 47 || u == 61) = false := by
  simp [isDelimiter, isWord, isDigit, isUpper, isLower, isSpace, UInt16.le_iff_toNat_le,
    ← UInt16.toNat_inj] at h ⊢
  omega

theorem apikey_rest {before t : JSString} {e : Cursor}
    (he : (run apikeyPattern ⟨before, t, []⟩).head? = some e) :
    e.rest.head?.all isDelimiter = true := by
  have hgreedy := greedy_apikey _ e he
  cases hr : e.rest with
  | nil => rfl
  | cons u s => simpa [hr] using hgreedy

theorem IsKeyName.head {h : JSString} (hh : IsKeyName h) : ∃ u t, h = u :: t ∧ isDelimiter u = false := by
  obtain ⟨x, rfl, hlen, hx⟩ := hh.split
  obtain ⟨u, x, rfl⟩ := List.exists_cons_of_length_eq_add_one hlen
  refine ⟨u, x ++ [61], rfl, ?_⟩
  by_contra hd
  have hu := delimiter_not_word (Bool.not_eq_false _ ▸ hd)
  simp [hx u (by simp)] at hu

theorem joined_head {before t last : JSString} {hits : List (JSString × JSString)}
    (h : Scan apikeyPattern before t hits last) (ht : t.head?.all isDelimiter = true) :
    (joined keyText hits last).head?.all isDelimiter = true := by
  cases h with
  | done _ => exact ht
  | @hit _ gap m t _ hits e _ hm he _ _ =>
    cases gap with
    | nil =>
      obtain ⟨x, z, hx, hname, -⟩ := (finds_apikey _ _).mp (List.ne_nil_of_mem (List.mem_of_head? he))
      obtain ⟨u, x, rfl, hu⟩ := hname.head
      rw [List.nil_append, hx] at ht
      simp [hu] at ht
    | cons u gap => simpa [joined] using ht

theorem mem_left {a b c z : JSString} {u : CodeUnit} (hu : u ∉ b) (h : a ++ b = c ++ u :: z) :
    ∃ z', a = c ++ u :: z' := by
  rcases List.append_eq_append_iff.mp h with ⟨w, -, hw⟩ | ⟨w, rfl, hw⟩
  · exact absurd (by simp [hw]) hu
  · cases w with
    | nil => exact absurd (by simp [← show u :: z = b from hw]) hu
    | cons y w =>
      obtain ⟨rfl, -⟩ : u = y ∧ z = w ++ b := by simpa using hw
      exact ⟨w, rfl⟩

theorem keyText_split (gap rest : JSString) : gap ++ (keyText ++ rest) =
    (gap ++ js "apikey") ++ 61 :: (js "REDACTED" ++ rest) := by
  rw [keyText, show js "apikey=REDACTED" = js "apikey" ++ 61 :: js "REDACTED" by decide]
  simp

theorem IsScheme.last {h : JSString} (hh : IsScheme h) : ∃ x, h = x ++ [47] := by
  obtain ⟨a, b, rfl, -⟩ := hh
  exact ⟨a ++ (b ++ [58, 47]), by simp [show js "://" = [58, 47, 47] by decide]⟩

theorem not_occurs_scheme_joined {before t last : JSString} {hits : List (JSString × JSString)}
    (h : Scan apikeyPattern before t hits last) (hno : ¬ Occurs IsScheme false false [] t) :
    ¬ Occurs IsScheme false false [] (joined keyText hits last) := by
  induction h with
  | done _ => exact hno
  | @hit before gap m t last hits e _ _ he ht hscan ih =>
    have hout : ∀ u, (isWord u || u == 58 || u == 47) = false → ∀ x, IsScheme x → u ∉ x :=
      fun u hu x hx hmem => by simp [hx.units u hmem] at hu
    have hletters : ∀ s : JSString, s.all isWord = true → ¬ Occurs IsScheme false false [] s := by
      rintro s hs ⟨v, x, z, rfl, ⟨a, b, rfl, -⟩, -⟩
      have hcolon := List.all_eq_true.mp hs 58 (by simp [show js "://" = [58, 47, 47] by decide])
      exact absurd hcolon (by decide)
    rw [joined, keyText_split, occurs_append_cons (by decide) (hout 61 (by decide))]
    rintro (⟨v, x, z, hgap, hx, -⟩ | hocc)
    · obtain ⟨y, rfl⟩ := hx.last
      have hgap' : gap ++ js "apikey" = (v ++ y) ++ 47 :: z := by rw [hgap]; simp
      obtain ⟨z', rfl⟩ := mem_left (by decide) hgap'
      exact hno ⟨v, y ++ [47], z' ++ (m ++ t), by simp, hx, by simp, by simp⟩
    · have hdelim := joined_head hscan (ht ▸ apikey_rest he)
      have hlater : ¬ Occurs IsScheme false false [] (joined keyText hits last) := by
        refine ih ?_
        rintro ⟨v, x, z, rfl, hx, -⟩
        exact hno ⟨gap ++ (m ++ v), x, z, by simp, hx, by simp, by simp⟩
      cases hJ : joined keyText hits last with
      | nil =>
        rw [hJ, List.append_nil] at hocc
        exact hletters _ (by decide) hocc
      | cons d J =>
        rw [hJ] at hdelim hocc hlater
        have hd := delimiter_not_word (show isDelimiter d = true by simpa using hdelim)
        simp only [Bool.or_eq_false_iff] at hd
        have hsep : ∀ a, Occurs IsScheme false false [] (a ++ d :: J) ↔
            Occurs IsScheme false false [] a ∨ Occurs IsScheme false false [] J :=
          fun a => occurs_append_cons hd.1.1.1 (hout d (by simp [hd])) [] a J
        rcases (hsep (js "REDACTED")).mp hocc with hocc | hocc
        · exact hletters _ (by decide) hocc
        · exact hlater ((hsep []).mpr (.inr hocc))

theorem settled_apikey {before t last : JSString} {hits : List (JSString × JSString)}
    (h : Scan apikeyPattern before t hits last) : Settled (joined keyText hits last) := by
  induction h with
  | @done before t hnone =>
    intro v x z ht hx
    refine absurd (hnone v (x ++ z) ht) ?_
    exact (finds_apikey _ _).mpr ⟨x, z, rfl, hx, by simp, by simp⟩
  | @hit before gap m t last hits e hgap _ he ht hscan ih =>
    intro v h z hjoined hh
    obtain ⟨x, rfl, hlen, hx⟩ := hh.split
    have hout : 61 ∉ x := fun hmem => by
      have := hx 61 hmem
      exact absurd this (by decide)
    have hdelim := joined_head hscan (ht ▸ apikey_rest he)
    rw [joined, keyText_split, List.append_assoc x] at hjoined
    rcases word_beside hout hjoined with ⟨z', hgap', hz⟩ | ⟨v', rfl, hrest⟩
    · cases z' with
      | nil =>
        obtain ⟨rfl, hname⟩ := List.append_inj' hgap' (by simp [hlen, show (js "apikey").length = 6 by
          decide])
        obtain rfl : z = js "REDACTED" ++ joined keyText hits last := by simpa using hz
        rw [List.append_nil] at hname
        exact ⟨by rw [← hname]; decide, _, rfl, hdelim⟩
      | cons y z' =>
        obtain ⟨rfl, -⟩ : 61 = y ∧ z = z' ++ _ := by simpa using hz
        obtain ⟨w, hw⟩ := mem_left (by decide) (hgap'.trans (List.append_assoc v x _).symm)
        have hnone := hgap v (x ++ 61 :: w) (by rw [hw]; simp) (by simp)
        refine absurd hnone ((finds_apikey _ _).mpr ⟨x ++ [61], w ++ (m ++ t), by simp, hh, ?_⟩)
        simp
    · cases hJ : joined keyText hits last with
      | nil =>
        rw [hJ, List.append_nil] at hrest
        have hmem : (61 : CodeUnit) ∈ js "REDACTED" := by simp [hrest]
        exact absurd hmem (by decide)
      | cons d J =>
        rw [hJ] at hdelim hrest ih
        have hd := delimiter_not_word (show isDelimiter d = true by simpa using hdelim)
        simp only [Bool.or_eq_false_iff, beq_eq_false_iff_ne] at hd
        have hdout : d ∉ x ++ [61] := by
          rw [List.mem_append, List.mem_singleton]
          rintro (hmem | rfl)
          · exact Bool.false_ne_true (hd.1.1.1.symm.trans (hx d hmem))
          · exact hd.2 rfl
        rw [← List.append_assoc x] at hrest
        rcases word_beside hdout hrest with ⟨w, hw, -⟩ | ⟨w, -, hw⟩
        · have hmem : (61 : CodeUnit) ∈ js "REDACTED" := by simp [hw]
          exact absurd hmem (by decide)
        · exact ih (d :: w) (x ++ [61]) z (by rw [hw, List.cons_append]) hh

/-! ## The five passes -/

/-- The text as the last pass finds it: without addresses, keys, credentials and SIDs. -/
def withoutSids (text : JSString) : JSString :=
  replaceAll sidPattern (js "[sid redacted]")
    (replaceAll basicPattern (js "[auth redacted]")
      (replaceAll apikeyPattern (js "apikey=REDACTED")
        (replaceAll urlPattern (js "[url redacted]") text)))

theorem scrubText_eq (text : JSString) : scrubText text =
    replaceAll numberPattern (js "[number redacted]") (withoutSids text) := rfl

/-- No pattern matches anywhere, apart from keys whose value is the placeholder. -/
structure Clean (t : JSString) : Prop where
  url : test urlPattern t = false
  apikey : ∀ v w e, t = v ++ w → (run apikeyPattern ⟨v.reverse, w, []⟩).head? = some e →
    w = js "apikey=REDACTED" ++ e.rest
  basic : test basicPattern t = false
  sid : test sidPattern t = false
  number : test numberPattern t = false

theorem Settled.apikey {t : JSString} (ht : Settled t) (v w : JSString) (e : Cursor)
    (hvw : t = v ++ w) (he : (run apikeyPattern ⟨v.reverse, w, []⟩).head? = some e) :
    w = js "apikey=REDACTED" ++ e.rest := by
  obtain ⟨_, ⟨h, z, rfl, hh, hz⟩, hpass, -⟩ := (reads_apikey _ e).mp (List.mem_of_head? he)
  have hw : w = h ++ (z ++ e.rest) := hpass.1.trans (List.append_assoc ..)
  obtain ⟨rfl, z', hz', hdelim⟩ := ht v h (z ++ e.rest) (by rw [hvw, hw]) hh
  have hend := apikey_rest he
  have hhead : ∀ y : JSString, y.head?.all isDelimiter = true →
      ∀ u ∈ y.head?, (!isDelimiter u) = false := by
    intro y hy
    cases y with
    | nil => simp
    | cons u y => simpa using hy
  have hred : ∀ u ∈ js "REDACTED", (!isDelimiter u) = true :=
    List.all_eq_true.mp (show (js "REDACTED").all (fun u => !isDelimiter u) = true by decide)
  -- Both are what stands before the first delimiter.
  obtain ⟨-, hrest⟩ := span_unique hz' (by simpa using hz) hred (hhead _ hend) (hhead _ hdelim)
  rw [hw, hz', ← hrest, ← List.append_assoc]
  exact congrArg (· ++ e.rest) (by decide)

theorem scrubText_of_clean {t : JSString} (ht : Clean t) : scrubText t = t := by
  rw [scrubText, replaceAll_of_test ht.url, replaceAll_of_same consumes_apikey ht.apikey,
    replaceAll_of_test ht.basic, replaceAll_of_test ht.sid, replaceAll_of_test ht.number]

/-- What the first four passes establish. -/
structure Prepared (t : JSString) : Prop where
  scheme : ¬ Occurs IsScheme false false [] t
  settled : Settled t
  basic : ¬ Occurs IsBasic true false [] t
  sid : ¬ Occurs IsSid true true [] t

theorem prepared_withoutSids (text : JSString) : Prepared (withoutSids text) := by
  have hurl : js "[url redacted]" = 91 :: (js "url redacted" ++ [93]) := by decide
  have hauth : js "[auth redacted]" = 91 :: (js "auth redacted" ++ [93]) := by decide
  have hsid : js "[sid redacted]" = 91 :: (js "sid redacted" ++ [93]) := by decide
  have cbasic := reads_basic.consumes isBasic_ne_nil
  have csid := reads_sid.consumes isSid_ne_nil
  obtain ⟨t₁, ht₁⟩ : ∃ t₁, replaceAll urlPattern (js "[url redacted]") text = t₁ := ⟨_, rfl⟩
  have hscheme₁ : ¬ Occurs IsScheme false false [] t₁ := by
    rw [← ht₁, hurl]
    exact not_occurs_replaceAll_self finds_url consumes_url isScheme_ne_nil
      (guarded_scheme.shields _ (by decide) (by decide)) .none text
  obtain ⟨t₂, ht₂⟩ : ∃ t₂, replaceAll apikeyPattern (js "apikey=REDACTED") t₁ = t₂ := ⟨_, rfl⟩
  obtain ⟨hits, last, hscan⟩ := exists_scan consumes_apikey [] t₁
  have hjoined : t₂ = joined keyText hits last := ht₂.symm.trans hscan.replaceFrom_eq
  have hscheme₂ : ¬ Occurs IsScheme false false [] t₂ :=
    hjoined ▸ not_occurs_scheme_joined hscan hscheme₁
  have hsettled₂ : Settled t₂ := hjoined ▸ settled_apikey hscan
  obtain ⟨t₃, ht₃⟩ : ∃ t₃, replaceAll basicPattern (js "[auth redacted]") t₂ = t₃ := ⟨_, rfl⟩
  have shields_auth : ∀ {L}, Guarded L → Shields (91 :: (js "auth redacted" ++ [93])) L :=
    fun h => h.shields _ (by decide) (by decide)
  have hscheme₃ : ¬ Occurs IsScheme false false [] t₃ := by
    rw [← ht₃, hauth]
    exact not_occurs_replaceAll cbasic (shields_auth guarded_scheme) .none hscheme₂
  have hsettled₃ : Settled t₃ := by
    rw [← ht₃, hauth]
    exact settled_replaceAll cbasic skips_basic (by decide) hsettled₂
  have hbasic₃ : ¬ Occurs IsBasic true false [] t₃ := by
    rw [← ht₃, hauth]
    exact not_occurs_replaceAll_self reads_basic.finds cbasic isBasic_ne_nil
      (shields_auth guarded_basic) apart_basic_basic t₂
  have shields_sid : ∀ {L}, Guarded L → Shields (91 :: (js "sid redacted" ++ [93])) L :=
    fun h => h.shields _ (by decide) (by decide)
  rw [withoutSids, ht₁, ht₂, ht₃, hsid]
  exact ⟨not_occurs_replaceAll csid (shields_sid guarded_scheme) .none hscheme₃,
    settled_replaceAll csid skips_sid (by decide) hsettled₃,
    not_occurs_replaceAll csid (shields_sid guarded_basic) apart_sid_basic hbasic₃,
    not_occurs_replaceAll_self reads_sid.finds csid isSid_ne_nil (shields_sid guarded_sid)
      apart_sid_sid t₃⟩

/-- The last pass keeps all of it but the boundaries at the numbers it takes. -/
theorem clean_scrubText_iff (text : JSString) : Clean (scrubText text) ↔
    ∀ gap ∈ gaps numberPattern (withoutSids text),
      test basicPattern gap = false ∧ test sidPattern gap = false := by
  have hnumber : js "[number redacted]" = 91 :: (js "number redacted" ++ [93]) := by decide
  have cnumber := reads_number.consumes isNumber_ne_nil
  have shields : ∀ {L}, Guarded L → Shields (91 :: (js "number redacted" ++ [93])) L :=
    fun h => h.shields _ (by decide) (by decide)
  have hprep := prepared_withoutSids text
  rw [scrubText_eq, hnumber]
  simp only [reads_basic.finds.test_eq_false, reads_sid.finds.test_eq_false]
  constructor
  · intro h gap hgap
    have hbasic := (reads_basic.finds.test_eq_false _).mp h.basic
    have hsid := (reads_sid.finds.test_eq_false _).mp h.sid
    rw [occurs_replaceAll cnumber (shields guarded_basic)] at hbasic
    rw [occurs_replaceAll cnumber (shields guarded_sid)] at hsid
    exact ⟨fun hocc => hbasic ⟨gap, hgap, hocc⟩, fun hocc => hsid ⟨gap, hgap, hocc⟩⟩
  · intro h
    refine ⟨(finds_url.test_eq_false _).mpr ?_, Settled.apikey ?_,
      (reads_basic.finds.test_eq_false _).mpr ?_, (reads_sid.finds.test_eq_false _).mpr ?_,
      (reads_number.finds.test_eq_false _).mpr ?_⟩
    · exact not_occurs_replaceAll cnumber (shields guarded_scheme) .none hprep.scheme
    · exact settled_replaceAll cnumber skips_number (by decide) hprep.settled
    · rw [occurs_replaceAll cnumber (shields guarded_basic)]
      rintro ⟨gap, hgap, hocc⟩
      exact (h gap hgap).1 hocc
    · rw [occurs_replaceAll cnumber (shields guarded_sid)]
      rintro ⟨gap, hgap, hocc⟩
      exact (h gap hgap).2 hocc
    · exact not_occurs_replaceAll_self reads_number.finds cnumber isNumber_ne_nil
        (shields guarded_number) .none _

theorem scrub_clean_iff (text : JSString) :
    (∃ out, scrub (.str text) = .ok out ∧ Clean out ∧ scrub (.str out) = .ok out) ↔
      Clean (scrubText text) := by
  constructor
  · rintro ⟨out, hout, hclean, -⟩
    obtain rfl : scrubText text = out := Except.ok.inj hout
    exact hclean
  · exact fun h => ⟨_, rfl, h, congrArg Except.ok (scrubText_of_clean h)⟩

/-- Redaction reaches a fixpoint exactly if no piece of the text between two phone numbers, read by
itself, holds Basic credentials or a SID. -/
theorem scrub_fixpoint_iff (text : JSString) :
    (∃ out, scrub (.str text) = .ok out ∧ Clean out ∧ scrub (.str out) = .ok out) ↔
      ∀ gap ∈ gaps numberPattern (withoutSids text),
        test basicPattern gap = false ∧ test sidPattern gap = false :=
  (scrub_clean_iff text).trans (clean_scrubText_iff text)

/-- That is: no piece has Basic credentials directly after a number that the last pass takes, and none
has a SID directly after or directly before one. -/
theorem scrub_beside_iff {text last : JSString} {hits : List (JSString × JSString)}
    (h : Scan numberPattern [] (withoutSids text) hits last) :
    (∃ out, scrub (.str text) = .ok out ∧ Clean out ∧ scrub (.str out) = .ok out) ↔
      ∀ p ∈ beside none hits last, ¬ Abuts IsBasic true false p ∧ ¬ Abuts IsSid true true p := by
  have hprep := prepared_withoutSids text
  rw [scrub_clean_iff, clean_scrubText_iff, gaps, h.gapsFrom_eq, ← beside_pieces none,
    List.forall_mem_map]
  simp only [reads_basic.finds.test_eq_false, reads_sid.finds.test_eq_false]
  refine forall₂_congr fun p hp => ?_
  rw [h.abuts hprep.basic hp, h.abuts hprep.sid hp]

theorem scrub_glued : ¬ ∃ out, scrub (.str (js "12345678Basic AAAAAAAA")) = .ok out ∧ Clean out ∧
    scrub (.str out) = .ok out := by
  rintro ⟨out, hout, hclean, -⟩
  obtain rfl : scrubText (js "12345678Basic AAAAAAAA") = out := Except.ok.inj hout
  have hfound : test basicPattern (scrubText (js "12345678Basic AAAAAAAA")) = true := by decide +kernel
  exact Bool.noConfusion (hfound.symm.trans hclean.basic)

/-! ## Texts of plain words -/

/-- A word that no secret is, or is part of. -/
def isPlainWord (w : JSString) : Bool :=
  w.length < 34 && w.all (fun u => !(isDigit u || u == 61)) && !(w.contains 58 && w.contains 47) &&
    !(w.contains 66 && w.contains 99)

theorem exists_infix_of_intercalate {a : CodeUnit} {ws : List JSString} {x : JSString}
    (h : x <:+: [a].intercalate ws) (ha : a ∉ x) (hne : x ≠ []) : ∃ w ∈ ws, x <:+: w := by
  induction ws with
  | nil => exact absurd (List.infix_nil.mp h) hne
  | cons w rest ih =>
    have hstart {t : JSString} (ht : x <+: a :: t) : False := by
      rcases List.prefix_cons_iff.mp ht with rfl | ⟨t', rfl, -⟩
      · exact hne rfl
      · exact ha List.mem_cons_self
    cases rest with
    | nil => exact ⟨w, by simp, by simpa using h⟩
    | cons w' rest =>
      rw [List.intercalate_cons_cons, List.append_assoc, List.singleton_append,
        List.infix_append_iff] at h
      rcases h with h | h | ⟨front, back, rfl, hfront, hback⟩
      · exact ⟨w, by simp, h⟩
      · rcases List.infix_cons_iff.mp h with h | h
        · exact (hstart h).elim
        · obtain ⟨w, hw, hx⟩ := ih h
          exact ⟨w, by simp [hw], hx⟩
      · cases back with
        | nil =>
          rw [List.append_nil]
          exact ⟨w, by simp, hfront.isInfix⟩
        | cons u back =>
          obtain ⟨rfl, -⟩ := List.cons_prefix_cons.mp hback
          exact absurd (by simp) ha

section Plain

variable {t : JSString}

theorem not_infix_of_plain (h : (t.splitOn 32).all isPlainWord = true) {x : JSString} (hx : x <:+: t)
    (hspace : 32 ∉ x) : x.length < 34 ∧ (∀ u ∈ x, isDigit u = false ∧ u ≠ 61) ∧
      ¬ (58 ∈ x ∧ 47 ∈ x) ∧ ¬ (66 ∈ x ∧ 99 ∈ x) := by
  by_cases hne : x = []
  · simp [hne]
  · have hjoin : [(32 : CodeUnit)].intercalate (t.splitOn 32) = t := List.intercalate_splitOn 32
    rw [← hjoin] at hx
    obtain ⟨w, hw, hxw⟩ := exists_infix_of_intercalate hx hspace hne
    have hplain := List.all_eq_true.mp h w hw
    have hmem {u : CodeUnit} (hu : u ∈ x) : u ∈ w := hxw.subset hu
    simp only [isPlainWord, Bool.and_eq_true, decide_eq_true_eq, List.all_eq_true,
      Bool.not_eq_true', Bool.or_eq_false_iff, beq_eq_false_iff_ne, Bool.and_eq_false_iff,
      List.contains_eq_mem, decide_eq_false_iff_not] at hplain
    obtain ⟨⟨⟨hlen, hunits⟩, hslash⟩, hbasic⟩ := hplain
    refine ⟨lt_of_le_of_lt hxw.length_le hlen, fun u hu => hunits u (hmem hu), ?_, ?_⟩
    · rintro ⟨h58, h47⟩
      exact hslash.elim (· (hmem h58)) (· (hmem h47))
    · rintro ⟨h66, h99⟩
      exact hbasic.elim (· (hmem h66)) (· (hmem h99))

theorem scrubText_of_plain (h : (t.splitOn 32).all isPlainWord = true) : scrubText t = t := by
  have hnumeric {u : CodeUnit} (hu : isDigit u = true ∨ u = 61) (hmem : u ∈ t) : False := by
    have hspace : (32 : CodeUnit) ∉ [u] := by
      rintro hs
      obtain rfl := List.mem_singleton.mp hs
      exact absurd hu (by decide)
    obtain ⟨v, z, hvz⟩ := List.append_of_mem hmem
    obtain ⟨-, hunit, -⟩ := not_infix_of_plain h ⟨v, z, by simp [hvz]⟩ hspace
    obtain ⟨hdigit, hequals⟩ := hunit u (by simp)
    rcases hu with hu | hu
    · exact absurd (hu.symm.trans hdigit) (by decide)
    · exact hequals hu
  have hurl : ¬ Occurs IsScheme false false [] t := by
    rintro ⟨v, _, z, rfl, ⟨a, b, rfl, -, -⟩, -⟩
    have hpart : js "://" <:+: v ++ (a ++ (b ++ js "://") ++ z) := ⟨v ++ (a ++ b), z, by simp⟩
    exact (not_infix_of_plain h hpart (by decide)).2.2.1 (by decide)
  have hapikey : ¬ Occurs IsKeyName false false [] t := by
    rintro ⟨v, x, z, rfl, hx, -⟩
    obtain ⟨x, rfl, -, -⟩ := IsKeyName.split hx
    exact hnumeric (.inr rfl) (by simp)
  have hbasic : ¬ Occurs IsBasic true false [] t := by
    rintro ⟨v, _, z, rfl, ⟨spaces, blob, rfl, -⟩, -⟩
    have hpart : js "Basic" <:+: v ++ (js "Basic" ++ (spaces ++ blob) ++ z) :=
      ⟨v, spaces ++ blob ++ z, by simp⟩
    exact (not_infix_of_plain h hpart (by decide)).2.2.2 (by decide)
  have hsid : ¬ Occurs IsSid true true [] t := by
    rintro ⟨v, x, z, rfl, hx, -⟩
    have hlen := (not_infix_of_plain h (List.infix_append' v x z) fun hs =>
      absurd (hx.isWord 32 hs) (by decide)).1
    exact absurd hx.length (by omega)
  have hnumber : ¬ Occurs IsNumber false false [] t := by
    rintro ⟨v, _, z, rfl, ⟨plus, d, mid, l, rfl, -, hd, -⟩, -⟩
    exact hnumeric (.inl hd) (by simp)
  rw [scrubText, replaceAll_of_test ((finds_url.test_eq_false t).mpr hurl),
    replaceAll_of_test ((finds_apikey.test_eq_false t).mpr hapikey),
    replaceAll_of_test ((reads_basic.finds.test_eq_false t).mpr hbasic),
    replaceAll_of_test ((reads_sid.finds.test_eq_false t).mpr hsid),
    replaceAll_of_test ((reads_number.finds.test_eq_false t).mpr hnumber)]

end Plain

end Spazito.Redactor
