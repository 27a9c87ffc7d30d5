import Spazito.AppsScript
import Spazito.CommandParser
import Spazito.PlatformRuns

set_option autoImplicit false

/-!
# The grammar of commands

What each text means, word by word, and that the parser agrees.
-/
namespace Spazito
open Ecma Script

namespace CommandParser

/-! ## Letters -/

def lowerAscii (u : CodeUnit) : CodeUnit := if isUpper u then u + 32 else u

theorem lowerAscii_toNat (u : CodeUnit) :
    (lowerAscii u).toNat = if 65 ≤ u.toNat ∧ u.toNat ≤ 90 then u.toNat + 32 else u.toNat := by
  unfold lowerAscii isUpper
  simp only [UInt16.le_iff_toNat_le, Bool.and_eq_true, decide_eq_true_eq]
  split_ifs with h1 h2
  · rw [UInt16.toNat_add]
    simp at h1 ⊢
    omega
  · simp at h1 h2
    omega
  · simp at h1
    omega
  · rfl

theorem isSpace_lowerAscii (u : CodeUnit) : isSpace (lowerAscii u) = isSpace u := by
  have h := lowerAscii_toNat u
  rw [Bool.eq_iff_iff, mem_spacePoints, mem_spacePoints, h]
  split_ifs
  · simp only [spacePoints, List.mem_cons, List.not_mem_nil, or_false]
    omega
  · rfl

theorem surrogate_lowerAscii (u : CodeUnit) :
    isHighSurrogate (lowerAscii u) = isHighSurrogate u ∧
      isLowSurrogate (lowerAscii u) = isLowSurrogate u := by
  have h := lowerAscii_toNat u
  constructor
  all_goals
    rw [Bool.eq_iff_iff]
    simp only [isHighSurrogate, isLowSurrogate, UInt16.le_iff_toNat_le, h]
    split_ifs
    · simp
      omega
    · rfl

theorem lowerPoint_lowerAscii (u : CodeUnit) :
    lowerPoint (lowerAscii u).toNat = lowerPoint u.toNat := by
  rw [lowerAscii_toNat]
  split_ifs with h
  · have h1 : u.toNat < 128 := by omega
    have h2 : u.toNat + 32 < 128 := by omega
    rw [lowerPoint, lowerPoint, if_pos h1, if_pos h2, if_pos h, if_neg (by omega)]
  · rfl

theorem lowerAscii_surrogate {u : CodeUnit} (h : isHighSurrogate u = true ∨ isLowSurrogate u = true) :
    lowerAscii u = u := by
  unfold lowerAscii
  refine if_neg ?_
  simp [isHighSurrogate, isLowSurrogate, isUpper, UInt16.le_iff_toNat_le] at h ⊢
  omega

theorem toLowerCase_lowerAscii (s : JSString) : toLowerCase (s.map lowerAscii) = toLowerCase s := by
  unfold toLowerCase
  induction s using codePoints.induct with
  | case1 => rfl
  | case2 u => simp [codePoints, lowerPoint_lowerAscii]
  | case3 u v s hc ih =>
    rw [Bool.and_eq_true] at hc
    rw [List.map_cons, List.map_cons, lowerAscii_surrogate (.inl hc.1), lowerAscii_surrogate (.inr hc.2),
      codePoints, codePoints, if_pos (by simp [hc]), if_pos (by simp [hc]), List.flatMap_cons,
      List.flatMap_cons, ih]
  | case4 u v s hc ih =>
    rw [List.map_cons] at ih
    rw [List.map_cons, List.map_cons, codePoints, codePoints, (surrogate_lowerAscii u).1,
      (surrogate_lowerAscii v).2, if_neg hc, if_neg hc, List.flatMap_cons, List.flatMap_cons, ih,
      lowerPoint_lowerAscii]

/-! ## Words -/

def Word (w : JSString) : Prop := w ≠ [] ∧ ∀ u ∈ w, isSpace u = false

def Boundary (s : JSString) : Prop := ∀ u ∈ s.head?, isSpace u = true

theorem rdropWhile_append_last {s t : JSString} (hlast : ∀ u ∈ s.getLast?, isSpace u = false) :
    (s ++ t).rdropWhile isSpace = s ++ t.rdropWhile isSpace := by
  induction t using List.reverseRecOn with
  | nil =>
    rw [List.append_nil, List.rdropWhile_nil, List.append_nil, List.rdropWhile_eq_self_iff]
    intro h
    simp [hlast _ (List.getLast?_eq_some_getLast h)]
  | append_singleton t u ih =>
    rw [← List.append_assoc]
    cases hu : isSpace u with
    | true => rw [List.rdropWhile_concat_pos _ _ _ hu, List.rdropWhile_concat_pos _ _ _ hu, ih]
    | false =>
      rw [List.rdropWhile_concat_neg _ _ _ (by simp [hu]), List.rdropWhile_concat_neg _ _ _ (by simp [hu]),
        List.append_assoc]

theorem Word.last {w : JSString} (h : Word w) : ∀ u ∈ w.getLast?, isSpace u = false :=
  fun u hu => h.2 u (List.mem_of_getLast? hu)

theorem Word.head {w : JSString} (h : Word w) : ∀ u ∈ w.head?, isSpace u = false :=
  fun u hu => h.2 u (List.mem_of_head? hu)

theorem trim_body {before verb : JSString} (hb : Blank before) (hv : Word verb) (rest : JSString) :
    trim (before ++ verb ++ rest) = verb ++ rest.rdropWhile isSpace := by
  rw [List.append_assoc, trim_blank_append _ _ hb, trim]
  have hhead : (verb ++ rest).dropWhile isSpace = verb ++ rest := by
    obtain ⟨hne, hunits⟩ := hv
    cases verb with
    | nil => exact absurd rfl hne
    | cons u verb => simp [hunits u (by simp)]
  rw [hhead, rdropWhile_append_last hv.last]

theorem splitSpaces_ne_nil (s : JSString) : splitSpaces s ≠ [] := by
  induction s with
  | nil => simp [splitSpaces]
  | cons u s ih =>
    rw [splitSpaces.eq_def]
    dsimp only
    split_ifs
    · exact ih
    · simp
    · split <;> simp

theorem splitSpaces_boundary {s : JSString} (h : Boundary s) : (splitSpaces s).headD [] = [] := by
  induction s with
  | nil => rfl
  | cons u s ih =>
    have hu : isSpace u = true := h u rfl
    rw [splitSpaces.eq_def]
    dsimp only
    rw [if_pos hu]
    split_ifs with hnext
    · exact ih fun v hv => by simpa [Option.mem_def.mp hv] using hnext
    · rfl

theorem splitSpaces_word {w : JSString} (hw : ∀ u ∈ w, isSpace u = false) (s : JSString) :
    splitSpaces (w ++ s) = (w ++ (splitSpaces s).headD []) :: (splitSpaces s).tail := by
  induction w with
  | nil =>
    cases hs : splitSpaces s with
    | nil => exact absurd hs (splitSpaces_ne_nil s)
    | cons v ws => rw [List.nil_append, hs]; rfl
  | cons u w ih =>
    obtain ⟨hu, hrest⟩ := List.forall_mem_cons.mp hw
    rw [List.cons_append, splitSpaces.eq_def]
    dsimp only
    rw [ih hrest]
    simp [hu]

theorem splitSpaces_gap {gap s : JSString} (hgap : Blank gap) (hne : gap ≠ [])
    (hs : ∀ u ∈ s.head?, isSpace u = false) : splitSpaces (gap ++ s) = [] :: splitSpaces s := by
  induction gap with
  | nil => exact absurd rfl hne
  | cons u gap ih =>
    obtain ⟨hu, hrest⟩ := List.forall_mem_cons.mp hgap
    rw [List.cons_append, splitSpaces.eq_def]
    dsimp only
    rw [if_pos hu]
    cases gap with
    | nil =>
      have hnext : s.head?.any isSpace = false := by
        cases s with
        | nil => rfl
        | cons v s => simpa using hs v rfl
      simp [hnext]
    | cons v gap =>
      rw [List.cons_append, List.head?_cons, Option.any_some, if_pos (hrest v (by simp))]
      exact ih hrest (by simp)

/-! ## The grammar -/

theorem exists_trim (s : JSString) : ∃ before after, s = before ++ (trim s ++ after) ∧
    Blank before ∧ Blank after := by
  refine ⟨s.takeWhile isSpace, (s.dropWhile isSpace).rtakeWhile isSpace, ?_,
    fun u hu => List.mem_takeWhile_imp hu, fun u hu => List.mem_rtakeWhile_imp hu⟩
  rw [trim, List.rdropWhile_append_rtakeWhile, List.takeWhile_append_dropWhile]

theorem exists_word (s : JSString) : Blank s ∨ ∃ before word rest, s = before ++ (word ++ rest) ∧
    Blank before ∧ Word word ∧ Boundary rest := by
  by_cases hs : Blank s
  · exact .inl hs
  · have hne : s.dropWhile isSpace ≠ [] := fun h => hs (List.dropWhile_eq_nil_iff.mp h)
    refine .inr ⟨s.takeWhile isSpace, (s.dropWhile isSpace).takeWhile fun u => !isSpace u,
      (s.dropWhile isSpace).dropWhile fun u => !isSpace u, ?_,
      fun u hu => List.mem_takeWhile_imp hu, ⟨fun h => ?_, fun u hu => ?_⟩, fun u hu => ?_⟩
    · rw [List.takeWhile_append_dropWhile, List.takeWhile_append_dropWhile]
    · have hhead := List.head?_dropWhile_not isSpace s
      cases hd : s.dropWhile isSpace with
      | nil => exact hne hd
      | cons u t => simp_all
    · simpa using List.mem_takeWhile_imp hu
    · have hstop := List.head?_dropWhile_not (fun u => !isSpace u) (s.dropWhile isSpace)
      simpa [Option.mem_def.mp hu] using hstop

/-- What a text means. -/
inductive Parses : JSString → Intent → Prop
  | blank {body : JSString} (h : Blank body) : Parses body help
  | unknown {before verb rest : JSString} (hb : Blank before) (hv : Word verb) (hr : Boundary rest)
      (hverb : aliases.lookup (toLowerCase verb) = none) : Parses (before ++ verb ++ rest) help
  | plain {before verb rest : JSString} {type : CommandType} (hb : Blank before) (hv : Word verb)
      (hr : Boundary rest) (hverb : aliases.lookup (toLowerCase verb) = some type)
      (hspec : argSpecs type = none) : Parses (before ++ verb ++ rest) ⟨type, none⟩
  | bare {before verb rest : JSString} {type : CommandType} {spec : ArgSpec} (hb : Blank before)
      (hv : Word verb) (hr : Blank rest) (hverb : aliases.lookup (toLowerCase verb) = some type)
      (hspec : argSpecs type = some spec) : Parses (before ++ verb ++ rest) help
  | ticker {before verb gap word rest : JSString} {type : CommandType} (hb : Blank before)
      (hv : Word verb) (hg : Blank gap) (hne : gap ≠ []) (hw : Word word) (hr : Boundary rest)
      (hverb : aliases.lookup (toLowerCase verb) = some type)
      (hspec : argSpecs type = some .ticker) :
      Parses (before ++ verb ++ (gap ++ (word ++ rest))) ⟨type, some (toUpperCase word)⟩
  | raw {before verb gap arg after : JSString} {type : CommandType} (hb : Blank before)
      (hv : Word verb) (hg : Blank gap) (hne : gap ≠ []) (harg : arg ≠ []) (htrim : trim arg = arg)
      (ha : Blank after) (hverb : aliases.lookup (toLowerCase verb) = some type)
      (hspec : argSpecs type = some .raw) :
      Parses (before ++ verb ++ (gap ++ (arg ++ after))) ⟨type, some arg⟩

theorem Boundary.rdropWhile {s : JSString} (h : Boundary s) : Boundary (s.rdropWhile isSpace) := by
  intro u hu
  obtain ⟨t, ht⟩ := List.rdropWhile_prefix isSpace (l := s)
  refine h u ?_
  rw [← ht, List.head?_append_of_ne_nil _ (by rintro h; simp [h] at hu)]
  exact hu

theorem parse_word {before verb rest : JSString} (hb : Blank before) (hv : Word verb)
    (hr : Boundary rest) : parse (.str (before ++ verb ++ rest)) =
      match aliases.lookup (toLowerCase verb) with
      | none => help
      | some type =>
        match argSpecs type with
        | none => ⟨type, none⟩
        | some spec =>
          match (splitSpaces (rest.rdropWhile isSpace))[1]? with
          | none => help
          | some word =>
            match spec with
            | .ticker => ⟨type, some (toUpperCase word)⟩
            | .raw => ⟨type, some (trim rest)⟩ := by
  have hwords : splitSpaces (verb ++ rest.rdropWhile isSpace) =
      verb :: (splitSpaces (rest.rdropWhile isSpace)).tail := by
    rw [splitSpaces_word hv.2, splitSpaces_boundary hr.rdropWhile, List.append_nil]
  have hsecond : (verb :: (splitSpaces (rest.rdropWhile isSpace)).tail)[1]? =
      (splitSpaces (rest.rdropWhile isSpace))[1]? := by
    rw [List.getElem?_cons_succ, List.getElem?_tail]
  have htrim : trim (rest.rdropWhile isSpace) = trim rest := by
    conv_rhs => rw [← List.rdropWhile_append_rtakeWhile (p := isSpace) (l := rest)]
    exact (trim_append_blank _ _ fun u hu => List.mem_rtakeWhile_imp hu).symm
  rw [parse, trim_body hb hv, hwords, hsecond, List.headD_cons, List.drop_left]
  cases aliases.lookup (toLowerCase verb) with
  | none => rfl
  | some type =>
    dsimp only
    cases argSpecs type with
    | none => rfl
    | some spec =>
      dsimp only
      cases (splitSpaces (rest.rdropWhile isSpace))[1]? with
      | none => rfl
      | some word =>
        cases spec with
        | ticker => rfl
        | raw =>
          dsimp only
          rw [htrim]

theorem second_word {gap s : JSString} (hg : Blank gap) (hne : gap ≠ [])
    (hs : ∀ u ∈ s.head?, isSpace u = false) :
    (splitSpaces (gap ++ s))[1]? = some ((splitSpaces s).headD []) := by
  rw [splitSpaces_gap hg hne hs, List.getElem?_cons_succ]
  cases h : splitSpaces s with
  | nil => exact absurd h (splitSpaces_ne_nil s)
  | cons w ws => rfl

theorem Boundary.append {gap : JSString} (hg : Blank gap) (hne : gap ≠ []) (s : JSString) :
    Boundary (gap ++ s) := by
  intro u hu
  rw [List.head?_append_of_ne_nil _ hne] at hu
  exact hg u (List.mem_of_head? hu)

theorem rdropWhile_blank {s : JSString} (h : Blank s) : s.rdropWhile isSpace = [] := by
  rw [List.rdropWhile_eq_nil_iff]
  exact h

theorem parse_of_parses {body : JSString} {i : Intent} (h : Parses body i) : parse (.str body) = i := by
  cases h with
  | blank h =>
    rw [parse, trim_eq_nil.mpr h]
    rfl
  | unknown hb hv hr hverb => rw [parse_word hb hv hr, hverb]
  | plain hb hv hr hverb hspec =>
    rw [parse_word hb hv hr, hverb]
    dsimp only
    rw [hspec]
  | bare hb hv hr hverb hspec =>
    rw [parse_word hb hv fun u hu => hr u (List.mem_of_head? hu), hverb]
    dsimp only
    rw [hspec, rdropWhile_blank hr]
    rfl
  | @ticker before verb gap word rest type hb hv hg hne hw hr hverb hspec =>
    have hend : (gap ++ (word ++ rest)).rdropWhile isSpace = gap ++ (word ++ rest.rdropWhile isSpace) := by
      rw [← List.append_assoc, rdropWhile_append_last, List.append_assoc]
      intro u hu
      rw [List.getLast?_append_of_ne_nil _ hw.1] at hu
      exact hw.last u hu
    rw [parse_word hb hv (.append hg hne _), hverb, hend]
    dsimp only
    rw [hspec, second_word hg hne, splitSpaces_word hw.2, splitSpaces_boundary hr.rdropWhile, List.append_nil]
    · rfl
    · intro u hu
      rw [List.head?_append_of_ne_nil _ hw.1] at hu
      exact hw.head u hu
  | @raw before verb gap arg after type hb hv hg hne harg htrim ha hverb hspec =>
    have hlast : ∀ u ∈ (gap ++ arg).getLast?, isSpace u = false := by
      intro u hu
      rw [List.getLast?_append_of_ne_nil _ harg, ← htrim] at hu
      exact trim_getLast u hu
    have hend : (gap ++ (arg ++ after)).rdropWhile isSpace = gap ++ arg := by
      rw [← List.append_assoc, rdropWhile_append_last hlast, rdropWhile_blank ha, List.append_nil]
    rw [parse_word hb hv (.append hg hne _), hverb, hend]
    dsimp only
    rw [hspec, second_word hg hne]
    · dsimp only
      rw [trim_blank_append _ _ hg, trim_append_blank _ _ ha, htrim]
    · rw [← htrim]
      exact trim_head

theorem exists_parses (body : JSString) : ∃ i, Parses body i := by
  rcases exists_word body with h | ⟨before, verb, rest, rfl, hb, hv, hr⟩
  · exact ⟨help, .blank h⟩
  · rw [← List.append_assoc]
    cases hverb : aliases.lookup (toLowerCase verb) with
    | none => exact ⟨help, .unknown hb hv hr hverb⟩
    | some type =>
      cases hspec : argSpecs type with
      | none => exact ⟨⟨type, none⟩, .plain hb hv hr hverb hspec⟩
      | some spec =>
        by_cases hblank : Blank rest
        · exact ⟨help, .bare hb hv hblank hverb hspec⟩
        · have hgap {gap s : JSString} (h : rest = gap ++ s) (hs : s ≠ [])
              (hhead : ∀ u ∈ s.head?, isSpace u = false) : gap ≠ [] := by
            rintro rfl
            obtain ⟨u, s, rfl⟩ := List.exists_cons_of_ne_nil hs
            have hspace := hr u (by simp [h])
            rw [hhead u rfl] at hspace
            cases hspace
          cases spec with
          | ticker =>
            obtain ⟨gap, word, tail, hsplit, hg, hw, ht⟩ := (exists_word rest).resolve_left hblank
            have hne := hgap hsplit (by simp [hw.1]) fun u hu => by
              rw [List.head?_append_of_ne_nil _ hw.1] at hu
              exact hw.head u hu
            rw [hsplit]
            exact ⟨_, .ticker hb hv hg hne hw ht hverb hspec⟩
          | raw =>
            obtain ⟨gap, after, hsplit, hg, ha⟩ := exists_trim rest
            have harg : trim rest ≠ [] := mt trim_eq_nil.mp hblank
            have hne := hgap hsplit (by simp [harg]) fun u hu => by
              rw [List.head?_append_of_ne_nil _ harg] at hu
              exact trim_head u hu
            rw [hsplit]
            exact ⟨_, .raw hb hv hg hne harg (trim_trim rest) ha hverb hspec⟩

theorem parse_iff (body : JSString) (i : Intent) : parse (.str body) = i ↔ Parses body i := by
  constructor
  · rintro rfl
    obtain ⟨i, hi⟩ := exists_parses body
    rwa [parse_of_parses hi]
  · exact parse_of_parses


/-! ## What does not matter -/

theorem parse_surrounded {before after : JSString} (hb : Blank before) (ha : Blank after)
    (body : JSString) : parse (.str (before ++ body ++ after)) = parse (.str body) := by
  rw [parse, parse, trim_append_blank _ _ ha, trim_blank_append _ _ hb]

theorem Word.of_case {verb verb' : JSString} (hv : Word verb)
    (h : verb.map lowerAscii = verb'.map lowerAscii) : Word verb' := by
  have hlen := congrArg List.length h
  rw [List.length_map, List.length_map] at hlen
  refine ⟨fun hnil => hv.1 (List.length_eq_zero_iff.mp (by rw [hlen, hnil]; rfl)), fun u hu => ?_⟩
  obtain ⟨v, hv', heq⟩ := List.mem_map.mp (h ▸ List.mem_map_of_mem hu)
  rw [← isSpace_lowerAscii, ← heq, isSpace_lowerAscii]
  exact hv.2 v hv'

theorem parse_case {before verb verb' rest : JSString} (hb : Blank before) (hv : Word verb)
    (hr : Boundary rest) (h : verb.map lowerAscii = verb'.map lowerAscii) :
    parse (.str (before ++ verb ++ rest)) = parse (.str (before ++ verb' ++ rest)) := by
  have hlower : toLowerCase verb = toLowerCase verb' := by
    rw [← toLowerCase_lowerAscii, h, toLowerCase_lowerAscii]
  rw [parse_word hb hv hr, parse_word hb (hv.of_case h) hr, hlower]

theorem parse_unlock {before verb gap v after : JSString} (hb : Blank before)
    (hverb : verb.map lowerAscii = js "unlock") (hg : Blank gap) (hne : gap ≠ []) (hv : ¬ Blank v)
    (ha : Blank after) :
    parse (.str (before ++ verb ++ (gap ++ (v ++ after)))) = ⟨.unlock, some (trim v)⟩ := by
  have hletters : (js "unlock").all (fun u => !isSpace u) = true := by decide
  have hunlock : Word (js "unlock") :=
    ⟨by decide, fun u hu => by simpa using List.all_eq_true.mp hletters u hu⟩
  have hsame : (js "unlock").map lowerAscii = verb.map lowerAscii := by
    rw [hverb]
    decide
  obtain ⟨front, back, hsplit, hfront, hback⟩ := exists_trim v
  have hgap : Blank (gap ++ front) := fun u hu => (List.mem_append.mp hu).elim (hg u) (hfront u)
  have hafter : Blank (back ++ after) := fun u hu => (List.mem_append.mp hu).elim (hback u) (ha u)
  have hjoin : gap ++ (v ++ after) = (gap ++ front) ++ (trim v ++ (back ++ after)) := by
    conv_lhs => rw [hsplit]
    simp only [List.append_assoc]
  rw [← parse_case hb hunlock (.append hg hne _) hsame, hjoin]
  exact parse_of_parses (.raw hb hunlock hgap (by simp [hne]) (mt trim_eq_nil.mp hv) (trim_trim v)
    hafter (by decide) rfl)

/-- The parser accepts its grammar, of eleven words: each text has the one meaning that the parser
finds, whatever stands around it and whatever the case of its verb; anything else asks for help; and a
text that unlocks yields the stored secret exactly as `Config.require` reads it. -/
theorem parse_exact :
    (∀ body i, parse (.str body) = i ↔ Parses body i) ∧
    (∀ word type, aliases.lookup word = some type ↔ (word, type) ∈ [
      (js "add", .add), (js "remove", .remove), (js "pause", .pause), (js "stop", .pause),
      (js "resume", .resume), (js "start", .resume), (js "list", .list), (js "status", .list),
      (js "help", .help), (js "log", .log), (js "unlock", CommandType.unlock)]) ∧
    (∀ type, (argSpecs type = some .ticker ↔ type = .add ∨ type = .remove) ∧
      (argSpecs type = some .raw ↔ type = .unlock)) ∧
    (∀ v : Value, (∀ s, v ≠ .str s) → parse v = help) ∧
    (∀ before body after, Blank before → Blank after →
      parse (.str (before ++ body ++ after)) = parse (.str body)) ∧
    (∀ before verb verb' rest, Blank before → Word verb → Boundary rest →
      verb.map lowerAscii = verb'.map lowerAscii →
      parse (.str (before ++ verb ++ rest)) = parse (.str (before ++ verb' ++ rest))) ∧
    (∀ (w : World) v, w.store .unlockSecret = some v → ¬ Blank v → ∃ secret,
      ((Config.require .unlockSecret).run host w).outcome = .ok secret ∧
      ∀ before verb gap after, Blank before → verb.map lowerAscii = js "unlock" → Blank gap →
        gap ≠ [] → Blank after →
        parse (.str (before ++ verb ++ (gap ++ (v ++ after)))) = ⟨.unlock, some secret⟩) := by
  refine ⟨parse_iff, lookup_aliases, argSpecs_eq, fun v hv => ?_,
    fun _ body _ hb ha => parse_surrounded hb ha body,
    fun _ _ _ _ => parse_case, fun w v hstored hv => ⟨trim v, ?_, fun _ _ _ _ hb hverb hg hne ha =>
      parse_unlock hb hverb hg hne hv ha⟩⟩
  · cases v with
    | str s => exact absurd rfl (hv s)
    | undefined | null | bool _ | num _ | arr _ | obj _ => rfl
  · have hset : Config.isMissing (w.store .unlockSecret) = false := by
      rw [hstored, Config.isMissing, decide_eq_false_iff_not, trim_eq_nil]
      exact hv
    rw [run_require, hset, Store.secret, hstored]
    rfl

theorem parse_exact_unlock : Parses (js " UnLock  Xy z ") ⟨.unlock, some (js "Xy z")⟩ :=
  (parse_exact.1 _ _).mp (by decide)

end CommandParser
end Spazito
