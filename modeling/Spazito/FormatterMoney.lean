import Spazito.EcmaNumber
import Spazito.EcmaScan
import Spazito.Formatter

set_option autoImplicit false

/-!
# Amounts

The grammar of a formatted price. The commas come from matches that take nothing: before every digit
with a multiple of three digits from it to the end and a digit before it.
-/
namespace Spazito.Formatter
open Ecma

def Digits (s : JSString) : Prop := s ≠ [] ∧ ∀ u ∈ s, isDigit u = true

/-- One to three digits, then groups of three, each behind a comma. -/
def Grouped (s : JSString) : Prop :=
  ∃ first : JSString, ∃ groups : List JSString, s = first ++ groups.flatMap (js "," ++ ·) ∧
    Digits first ∧ first.length ≤ 3 ∧ ∀ g ∈ groups, g.length = 3 ∧ Digits g

/-- A minus if there is one, grouped digits, and behind a point as many digits as there are decimals. -/
def IsMoney (decimals : ℕ) (s : JSString) : Prop :=
  ∃ sign whole fraction, s = sign ++ (whole ++ fraction) ∧ (sign = [] ∨ sign = js "-") ∧
    Grouped whole ∧ (if decimals = 0 then fraction = []
      else ∃ ds, fraction = js "." ++ ds ∧ ds.length = decimals ∧ ∀ u ∈ ds, isDigit u = true)

def isMoneyUnit (u : CodeUnit) : Bool := isDigit u || u == 44 || u == 45 || u == 46

theorem units_of_digits {s : JSString} (h : ∀ u ∈ s, isDigit u = true) : ∀ u ∈ s, isMoneyUnit u = true :=
  fun u hu => by rw [isMoneyUnit, h u hu]; rfl

theorem Grouped.units {s : JSString} (h : Grouped s) : ∀ u ∈ s, isMoneyUnit u = true := by
  obtain ⟨first, groups, rfl, hfirst, -, hgroups⟩ := h
  have hcomma : (js ",").all isMoneyUnit = true := by decide
  intro u hu
  rcases List.mem_append.mp hu with hu | hu
  · exact units_of_digits hfirst.2 u hu
  · obtain ⟨g, hg, hu⟩ := List.mem_flatMap.mp hu
    rcases List.mem_append.mp hu with hu | hu
    · exact List.all_eq_true.mp hcomma u hu
    · exact units_of_digits (hgroups g hg).2.2 u hu

theorem IsMoney.units {decimals : ℕ} {s : JSString} (h : IsMoney decimals s) :
    ∀ u ∈ s, isMoneyUnit u = true := by
  obtain ⟨sign, whole, fraction, rfl, hsign, hwhole, hfraction⟩ := h
  have hminus : (js "-").all isMoneyUnit = true := by decide
  have hdot : (js ".").all isMoneyUnit = true := by decide
  intro u hu
  rcases List.mem_append.mp hu with hu | hu
  · rcases hsign with rfl | rfl
    · cases hu
    · exact List.all_eq_true.mp hminus u hu
  rcases List.mem_append.mp hu with hu | hu
  · exact hwhole.units u hu
  · split_ifs at hfraction
    · rw [hfraction] at hu
      cases hu
    · obtain ⟨ds, rfl, -, hds⟩ := hfraction
      rcases List.mem_append.mp hu with hu | hu
      · exact List.all_eq_true.mp hdot u hu
      · exact units_of_digits hds u hu

theorem IsMoney.ne_nil {decimals : ℕ} {s : JSString} (h : IsMoney decimals s) : s ≠ [] := by
  obtain ⟨sign, whole, fraction, rfl, -, ⟨first, groups, rfl, hfirst, -⟩, -⟩ := h
  simp [hfirst.1]

/-! ## Where the commas go -/

/-- `(\d{3})+(?!\d)` -/
def threesPattern : Regex :=
  .seq (.rep 1 none (.rep 3 (some 3) (.unit isDigit))) (.notAhead (.unit isDigit))

theorem exists_threes (n : ℕ) (s : JSString) (h : s.length = 3 * n) :
    ∃ ws : List JSString, ws.length = n ∧ (∀ w ∈ ws, w.length = 3) ∧ s = ws.flatten := by
  induction n generalizing s with
  | zero => exact ⟨[], rfl, by simp, List.length_eq_zero_iff.mp h⟩
  | succ n ih =>
    obtain ⟨ws, hlen, hws, hs⟩ := ih (s.drop 3) (by rw [List.length_drop]; omega)
    refine ⟨s.take 3 :: ws, by rw [List.length_cons, hlen], ?_, ?_⟩
    · refine List.forall_mem_cons.mpr ⟨?_, hws⟩
      rw [List.length_take]
      omega
    · rw [List.flatten_cons, ← hs, List.take_append_drop]

theorem finishes_threes : Regex.Finishes threesPattern fun t => ∃ x y : JSString, t = x ++ y ∧
    (∃ ws : List JSString, ws ≠ [] ∧ (∀ w ∈ ws, w.length = 3 ∧ ∀ u ∈ w, isDigit u = true) ∧
      x = ws.flatten) ∧ ∀ u ∈ y.head?, isDigit u = false := by
  have hthree : Regex.Denotes (.rep 3 (some 3) (.unit isDigit)) _ :=
    Regex.denotes_rep_unit 3 (some 3) (by simp)
  have h := Regex.Finishes.seq (hthree.rep (by simp) 1 none (by simp))
    (Regex.finishes_notAhead_unit (p := isDigit))
  intro c
  rw [threesPattern, h c]
  constructor
  · rintro ⟨x, y, hxy, ⟨ws, hone, -, hws, hx⟩, hy⟩
    refine ⟨x, y, hxy, ⟨ws, List.length_pos_iff.mp hone, fun w hw => ?_, hx⟩, hy⟩
    obtain ⟨hleast, hmost, hdigits⟩ := hws w hw
    exact ⟨le_antisymm (hmost 3 rfl) hleast, hdigits⟩
  · rintro ⟨x, y, hxy, ⟨ws, hne, hws, hx⟩, hy⟩
    refine ⟨x, y, hxy, ⟨ws, List.length_pos_iff.mpr hne, by simp, fun w hw => ?_, hx⟩, hy⟩
    obtain ⟨hlen, hdigits⟩ := hws w hw
    exact ⟨hlen.ge, by rintro m ⟨⟩; exact hlen.le, hdigits⟩

theorem run_threes {c : Cursor} (hc : ∀ u ∈ c.rest, isDigit u = true) :
    Regex.run threesPattern c ≠ [] ↔ c.rest ≠ [] ∧ 3 ∣ c.rest.length := by
  rw [finishes_threes c]
  constructor
  · rintro ⟨x, y, hxy, ⟨ws, hne, hws, rfl⟩, hy⟩
    have hend : y = [] := by
      cases y with
      | nil => rfl
      | cons u y =>
        have hu := hc u (by rw [hxy]; simp)
        rw [hy u rfl] at hu
        cases hu
    have hlen : c.rest.length = ws.length * 3 := by
      rw [hxy, hend, List.append_nil, List.length_flatten,
        List.map_congr_left (g := fun _ => 3) fun w hw => (hws w hw).1]
      simp
    have hpos := List.length_pos_iff.mpr hne
    exact ⟨List.length_pos_iff.mp (by omega), ⟨ws.length, by rw [hlen, mul_comm]⟩⟩
  · rintro ⟨hne, n, hlen⟩
    obtain ⟨ws, hcount, hws, hrest⟩ := exists_threes n c.rest hlen
    have hpos := List.length_pos_iff.mpr hne
    refine ⟨c.rest, [], by simp, ⟨ws, List.length_pos_iff.mp (by omega), fun w hw => ?_, hrest⟩,
      by simp⟩
    refine ⟨hws w hw, fun u hu => hc u ?_⟩
    rw [hrest]
    exact List.mem_flatten.mpr ⟨w, hw, hu⟩

theorem run_threes_of_head {c : Cursor} (hc : ∀ u ∈ c.rest.head?, isDigit u = false) :
    Regex.run threesPattern c = [] := by
  by_contra h
  obtain ⟨x, y, hxy, ⟨ws, hne, hws, rfl⟩, -⟩ := (finishes_threes c).mp h
  obtain ⟨w, ws, rfl⟩ := List.exists_cons_of_ne_nil hne
  obtain ⟨⟨hlen, hdigits⟩, -⟩ := List.forall_mem_cons.mp hws
  obtain ⟨u, w, rfl⟩ := List.exists_cons_of_length_pos (show 0 < w.length by omega)
  have hu := hc u (by rw [hxy]; rfl)
  rw [hdigits u (by simp)] at hu
  cases hu

theorem run_groupPattern (c : Cursor) : Regex.run groupPattern c =
    if Regex.Cursor.atBoundary c = true then []
    else match Regex.run threesPattern c with
      | [] => []
      | d :: _ => [⟨c.before, c.rest, d.groups⟩] := by
  by_cases h : Regex.Cursor.atBoundary c = true
  · rw [if_pos h]
    simp [groupPattern, Regex.run, h]
  · rw [if_neg h]
    simp only [groupPattern, Regex.run, if_neg h, List.flatMap_cons, List.flatMap_nil,
      List.append_nil]
    rfl

/-- Digits with their commas; the flag says that a digit stands before them. -/
def grouped (inside : Bool) : JSString → JSString
  | [] => []
  | u :: s => (if inside ∧ 3 ∣ s.length + 1 then js "," else []) ++ u :: grouped true s

theorem isWord_of_isDigit {u : CodeUnit} (h : isDigit u = true) : Regex.isWord u = true := by
  simp [Regex.isWord, h]

theorem replaceFrom_groupPattern {ds : JSString} (hds : ∀ u ∈ ds, isDigit u = true)
    (before : JSString) : Regex.replaceFrom groupPattern (js ",") 0 before ds =
      grouped (before.head?.any Regex.isWord) ds := by
  induction ds generalizing before with
  | nil =>
    refine Regex.replaceFrom_nil ?_
    rw [run_groupPattern, run_threes_of_head (by simp)]
    split_ifs <;> rfl
  | cons u s ih =>
    obtain ⟨hu, hs⟩ := List.forall_mem_cons.mp hds
    have hnext : (u :: before).head?.any Regex.isWord = true := by simpa using isWord_of_isDigit hu
    have hedge : Regex.Cursor.atBoundary ⟨before, u :: s, []⟩ = !before.head?.any Regex.isWord := by
      simp [Regex.Cursor.atBoundary, isWord_of_isDigit hu]
    have hrun := run_groupPattern ⟨before, u :: s, []⟩
    have hthrees := run_threes (c := ⟨before, u :: s, []⟩) hds
    rw [hedge] at hrun
    rw [grouped]
    cases hb : before.head?.any Regex.isWord with
    | false =>
      rw [hb] at hrun
      rw [if_neg (by simp), Regex.replaceFrom_miss (by simpa using hrun), ih hs, hnext]
      rfl
    | true =>
      rw [hb] at hrun
      cases hlook : Regex.run threesPattern ⟨before, u :: s, []⟩ with
      | nil =>
        have hno : ¬ 3 ∣ s.length + 1 := fun h => hthrees.mpr ⟨by simp, h⟩ hlook
        rw [hlook] at hrun
        rw [if_neg (by simp [hno]), Regex.replaceFrom_miss (by simpa using hrun), ih hs, hnext]
        rfl
      | cons d rest =>
        have hyes : 3 ∣ s.length + 1 := (hthrees.mp (by simp [hlook])).2
        rw [hlook] at hrun
        rw [if_pos ⟨rfl, hyes⟩,
          Regex.replaceFrom_insert (e := ⟨before, u :: s, d.groups⟩) (by simp [hrun]) rfl,
          ih hs, hnext]

theorem grouped_true {ds : JSString} (hds : ∀ u ∈ ds, isDigit u = true) :
    ∃ first : JSString, ∃ groups : List JSString,
      grouped true ds = first ++ groups.flatMap (js "," ++ ·) ∧ first.length = ds.length % 3 ∧
      (∀ u ∈ first, isDigit u = true) ∧ ∀ g ∈ groups, g.length = 3 ∧ Digits g := by
  induction ds with
  | nil => exact ⟨[], [], rfl, rfl, by simp, by simp⟩
  | cons u s ih =>
    obtain ⟨hu, hs⟩ := List.forall_mem_cons.mp hds
    obtain ⟨first, groups, hgrouped, hlen, hfirst, hgroups⟩ := ih hs
    have hcons : ∀ v ∈ u :: first, isDigit v = true := List.forall_mem_cons.mpr ⟨hu, hfirst⟩
    rw [grouped, hgrouped, List.length_cons]
    by_cases hthree : 3 ∣ s.length + 1
    · rw [if_pos ⟨rfl, hthree⟩]
      refine ⟨[], (u :: first) :: groups, by simp, by simp [Nat.dvd_iff_mod_eq_zero.mp hthree],
        by simp, List.forall_mem_cons.mpr ⟨⟨?_, by simp, hcons⟩, hgroups⟩⟩
      rw [List.length_cons]
      omega
    · rw [if_neg (by simp [hthree])]
      refine ⟨u :: first, groups, rfl, ?_, hcons, hgroups⟩
      rw [List.length_cons]
      omega

theorem grouped_false {ds : JSString} (hds : Digits ds) : Grouped (grouped false ds) := by
  obtain ⟨hne, hdigits⟩ := hds
  obtain ⟨u, s, rfl⟩ := List.exists_cons_of_ne_nil hne
  obtain ⟨hu, hs⟩ := List.forall_mem_cons.mp hdigits
  obtain ⟨first, groups, hgrouped, hlen, hfirst, hgroups⟩ := grouped_true hs
  refine ⟨u :: first, groups, by rw [grouped, hgrouped]; rfl,
    ⟨by simp, List.forall_mem_cons.mpr ⟨hu, hfirst⟩⟩, ?_, hgroups⟩
  rw [List.length_cons]
  omega

/-- The commas are put among the digits; a minus before them stays. -/
theorem replaceAll_groupPattern {sign ds : JSString} (hsign : sign = [] ∨ sign = js "-")
    (hds : Digits ds) :
    Regex.replaceAll groupPattern (js ",") (sign ++ ds) = sign ++ grouped false ds := by
  rcases hsign with rfl | rfl
  · exact replaceFrom_groupPattern hds.2 []
  · have hrest : Regex.run groupPattern ⟨[], 45 :: ds, []⟩ = [] := by
      rw [run_groupPattern, run_threes_of_head (by simp; decide)]
      split_ifs <;> rfl
    have hminus : js "-" = [45] := by decide
    rw [hminus, Regex.replaceAll, List.singleton_append, Regex.replaceFrom_miss hrest,
      replaceFrom_groupPattern hds.2]
    rfl

/-! ## The insertion of the commas -/

/-- What `_formatMoney` does with the result of `toFixed`. -/
def insertCommas (fixed : JSString) : JSString :=
  let parts := fixed.splitOn 46
  List.intercalate (js ".") (Regex.replaceAll groupPattern (js ",") (parts.headD []) :: parts.tail)

theorem formatMoney_eq (value : Number) (decimals : ℕ) :
    formatMoney value decimals = insertCommas (Number.toFixed decimals value) := rfl

theorem splitOn_of_not_mem {s : JSString} (h : 46 ∉ s) : s.splitOn 46 = [s] := by
  have hwhole : ([46].intercalate [s]).splitOn 46 = [s] :=
    List.splitOn_intercalate 46 (by simpa using h) (by simp)
  simpa using hwhole

theorem not_mem_of_digits {u : CodeUnit} (hu : isDigit u = false) {ds : JSString}
    (hds : ∀ v ∈ ds, isDigit v = true) : u ∉ ds := by
  intro hmem
  rw [hds u hmem] at hu
  cases hu

theorem insertCommas_fixed {sign whole fraction : JSString} (hsign : sign = [] ∨ sign = js "-")
    (hwhole : Digits whole)
    (hfraction : fraction = [] ∨ ∃ ds, fraction = js "." ++ ds ∧ ∀ u ∈ ds, isDigit u = true) :
    insertCommas (sign ++ (whole ++ fraction)) = sign ++ (grouped false whole ++ fraction) := by
  have hdot : js "." = [46] := by decide
  have hminus : 46 ∉ js "-" := by decide
  have hpoint : 46 ∉ sign ++ whole := by
    have hdigits := not_mem_of_digits (u := 46) (by decide) hwhole.2
    rcases hsign with rfl | rfl
    · simpa using hdigits
    · simp [hminus, hdigits]
  unfold insertCommas
  dsimp only
  rcases hfraction with rfl | ⟨ds, rfl, hds⟩
  · rw [List.append_nil, splitOn_of_not_mem hpoint, List.headD_cons, List.tail_cons,
      List.intercalate_singleton, replaceAll_groupPattern hsign hwhole, List.append_nil]
  · have hsplit : (sign ++ (whole ++ (js "." ++ ds))).splitOn 46 = [sign ++ whole, ds] := by
      have h : ([46].intercalate [sign ++ whole, ds]).splitOn 46 = [sign ++ whole, ds] :=
        List.splitOn_intercalate 46
          (by simp [hpoint, not_mem_of_digits (u := 46) (by decide) hds]) (by simp)
      simpa [hdot] using h
    rw [hsplit, List.headD_cons, List.tail_cons, List.intercalate_cons_cons,
      List.intercalate_singleton, replaceAll_groupPattern hsign hwhole, List.append_assoc,
      List.append_assoc]

theorem filter_of_no_comma {s : JSString} (h : 44 ∉ s) : s.filter (· ≠ 44) = s :=
  List.filter_eq_self.mpr fun _ hu => decide_eq_true fun he => h (he ▸ hu)

theorem filter_comma {ds : JSString} (hds : ∀ u ∈ ds, isDigit u = true) :
    ds.filter (· ≠ 44) = ds := filter_of_no_comma (not_mem_of_digits (by decide) hds)

theorem filter_grouped {ds : JSString} (hds : ∀ u ∈ ds, isDigit u = true) (inside : Bool) :
    (grouped inside ds).filter (· ≠ 44) = ds := by
  have hcomma : (js ",").filter (· ≠ 44) = [] := by decide
  induction ds generalizing inside with
  | nil => rfl
  | cons u s ih =>
    obtain ⟨hu, hs⟩ := List.forall_mem_cons.mp hds
    have hkept : ([u] : JSString).filter (· ≠ 44) = [u] := filter_comma (by simpa using hu)
    have hfront : (if inside = true ∧ 3 ∣ s.length + 1 then js "," else []).filter (· ≠ 44) = [] := by
      split_ifs
      · exact hcomma
      · rfl
    rw [grouped, List.filter_append, hfront, List.nil_append, ← List.singleton_append,
      List.filter_append, hkept, ih hs, List.singleton_append]

theorem filter_groups {groups : List JSString} (h : ∀ g ∈ groups, Digits g) :
    (groups.flatMap (js "," ++ ·)).filter (· ≠ 44) = groups.flatten := by
  have hcomma : (js ",").filter (· ≠ 44) = [] := by decide
  induction groups with
  | nil => rfl
  | cons g groups ih =>
    obtain ⟨hg, hgroups⟩ := List.forall_mem_cons.mp h
    rw [List.flatMap_cons, List.filter_append, List.filter_append, hcomma, List.nil_append,
      filter_comma hg.2, ih hgroups, List.flatten_cons]

theorem grouped_comma {ds : JSString} (hds : ∀ u ∈ ds, isDigit u = true) {inside : Bool}
    {before after : JSString} (h : grouped inside ds = before ++ 44 :: after) :
    (before = [] → inside = true) ∧ (∀ u ∈ before.getLast?, isDigit u = true) ∧
      ∃ u ∈ after.head?, isDigit u = true := by
  induction ds generalizing inside before with
  | nil => simp [grouped] at h
  | cons u s ih =>
    obtain ⟨hu, hs⟩ := List.forall_mem_cons.mp hds
    have hdigit : u ≠ 44 := by
      rintro rfl
      cases hu
    have hcomma : js "," = [44] := by decide
    -- The comma stands behind `u`.
    have hlater : ∀ front : JSString, u :: grouped true s = front ++ 44 :: after → front ≠ [] ∧
        (∀ v ∈ front.getLast?, isDigit v = true) ∧ ∃ v ∈ after.head?, isDigit v = true := by
      intro front hfront
      cases front with
      | nil => exact absurd (List.cons.inj hfront).1 hdigit
      | cons v front =>
        obtain ⟨rfl, htail⟩ := List.cons.inj hfront
        obtain ⟨-, hlast, hhead⟩ := ih hs htail
        refine ⟨by simp, ?_, hhead⟩
        cases front with
        | nil => simpa using hu
        | cons v front => simpa [List.getLast?_cons_cons] using hlast
    rw [grouped] at h
    split_ifs at h with hbegin
    · rw [hcomma] at h
      cases before with
      | nil =>
        obtain rfl := (List.cons.inj h).2
        exact ⟨fun _ => hbegin.1, by simp, u, rfl, hu⟩
      | cons v front =>
        obtain ⟨rfl, htail⟩ := List.cons.inj h
        obtain ⟨hne, hlast, hhead⟩ := hlater front htail
        refine ⟨by simp, ?_, hhead⟩
        obtain ⟨x, front, rfl⟩ := List.exists_cons_of_ne_nil hne
        simpa [List.getLast?_cons_cons] using hlast
    · obtain ⟨hne, hlast, hhead⟩ := hlater before h
      exact ⟨fun hnil => absurd hnil hne, hlast, hhead⟩

/-! ## What toFixed prints -/

theorem digitsValue_zeros (n : ℕ) (s : JSString) :
    digitsValue (List.replicate n 48 ++ s) = digitsValue s := by
  induction n with
  | zero => rfl
  | succ n ih => exact ih

/-- Its digits before and behind the point are those of the nearest multiple of the last place. -/
theorem toFixed_parts {q : ℚ} (hq : |q| < maxFormattable) (digits : ℕ) :
    ∃ ip fp : JSString, Number.toFixed digits (.finite q) =
        (if q < 0 then js "-" else []) ++ (ip ++ if digits = 0 then [] else js "." ++ fp) ∧
      Digits ip ∧ fp.length = digits ∧ (∀ u ∈ fp, isDigit u = true) ∧
      digitsValue (ip ++ fp) = ⌊|q| * 10 ^ digits + 1 / 2⌋.toNat := by
  rw [Number.toFixed, if_pos (show |q| < 10 ^ 21 from hq)]
  dsimp only
  set m := padStart (digits + 1) 48 (decimal ⌊|q| * 10 ^ digits + 1 / 2⌋.toNat) with hm
  have hdigits : ∀ u ∈ m, isDigit u = true := by
    intro u hu
    rcases List.mem_append.mp hu with hu | hu
    · rw [(List.mem_replicate.mp hu).2]
      decide
    · exact decimal_isDigit _ u hu
  have hlong : digits + 1 ≤ m.length := by
    rw [hm, padStart, List.length_append, List.length_replicate]
    omega
  have hip : Digits (m.take (m.length - digits)) := by
    refine ⟨List.length_pos_iff.mp ?_, fun u hu => hdigits u (List.mem_of_mem_take hu)⟩
    rw [List.length_take]
    omega
  have hbody : (if digits = 0 then m
      else m.take (m.length - digits) ++ js "." ++ m.drop (m.length - digits)) =
      m.take (m.length - digits) ++
        if digits = 0 then [] else js "." ++ m.drop (m.length - digits) := by
    split_ifs with hzero
    · rw [hzero, Nat.sub_zero, List.take_length, List.append_nil]
    · rw [List.append_assoc]
  rw [hbody]
  refine ⟨_, m.drop (m.length - digits), ?_, hip, ?_, fun u hu => hdigits u (List.mem_of_mem_drop hu), ?_⟩
  · split_ifs <;> rfl
  · rw [List.length_drop]
    omega
  · rw [List.take_append_drop, hm, padStart, digitsValue_zeros, digitsValue_decimal]

theorem toFixed_eq {q : ℚ} (hq : |q| < maxFormattable) (digits : ℕ) :
    ∃ sign ip fp : JSString, Number.toFixed digits (.finite q) =
        sign ++ (ip ++ if digits = 0 then [] else js "." ++ fp) ∧
      (sign = [] ∨ sign = js "-") ∧ Digits ip ∧ fp.length = digits ∧ ∀ u ∈ fp, isDigit u = true := by
  obtain ⟨ip, fp, hfixed, hip, hlen, hfp, -⟩ := toFixed_parts hq digits
  refine ⟨_, ip, fp, hfixed, ?_, hip, hlen, hfp⟩
  split_ifs
  · exact .inr rfl
  · exact .inl rfl

theorem formatMoney_isMoney {q : ℚ} (hq : |q| < maxFormattable) (digits : ℕ) :
    IsMoney digits (formatMoney (.finite q) digits) := by
  obtain ⟨sign, ip, fp, hfixed, hsign, hip, hlen, hfp⟩ := toFixed_eq hq digits
  have hfraction : (if digits = 0 then [] else js "." ++ fp) = [] ∨
      ∃ ds, (if digits = 0 then [] else js "." ++ fp) = js "." ++ ds ∧ ∀ u ∈ ds, isDigit u = true := by
    split_ifs
    · exact .inl rfl
    · exact .inr ⟨fp, rfl, hfp⟩
  rw [formatMoney_eq, hfixed, insertCommas_fixed hsign hip hfraction]
  refine ⟨sign, grouped false ip, if digits = 0 then [] else js "." ++ fp, rfl, hsign,
    grouped_false hip, ?_⟩
  split_ifs
  · rfl
  · exact ⟨fp, rfl, hlen, hfp⟩

/-! ## Grouping is exact -/

structure IsFixed (sign whole fraction : JSString) : Prop where
  sign : sign = [] ∨ sign = js "-"
  whole : Digits whole
  fraction : fraction = [] ∨ ∃ ds, fraction = js "." ++ ds ∧ Digits ds

theorem comma_inside {x y z before after : JSString} (hx : 44 ∉ x) (hz : 44 ∉ z)
    (h : x ++ (y ++ z) = before ++ 44 :: after) :
    ∃ b a, before = x ++ b ∧ after = a ++ z ∧ y = b ++ 44 :: a := by
  obtain ⟨b, hbefore, hrest⟩ : ∃ b, before = x ++ b ∧ y ++ z = b ++ 44 :: after := by
    rcases List.append_eq_append_iff.mp h with hlonger | ⟨c, hshort, hc⟩
    · exact hlonger
    · cases c with
      | nil => exact ⟨[], by rw [hshort, List.append_nil, List.append_nil], hc.symm⟩
      | cons v c =>
        obtain ⟨rfl, -⟩ := List.cons.inj hc
        exact absurd (by rw [hshort]; simp) hx
  rcases List.append_eq_append_iff.mp hrest with ⟨c, -, hlate⟩ | ⟨c, hy, hc⟩
  · exact absurd (by rw [hlate]; simp) hz
  · cases c with
    | nil => exact absurd (by rw [← List.nil_append z, ← hc]; simp) hz
    | cons v c =>
      obtain ⟨rfl, hafter⟩ := List.cons.inj hc
      exact ⟨b, c, hbefore, hafter, hy⟩

theorem IsFixed.no_comma {sign whole fraction : JSString} (h : IsFixed sign whole fraction) :
    44 ∉ sign ∧ 44 ∉ fraction := by
  have hminus : 44 ∉ js "-" := by decide
  have hpoint : 44 ∉ js "." := by decide
  obtain ⟨hsign, -, hfraction⟩ := h
  constructor
  · rcases hsign with rfl | rfl
    · simp
    · exact hminus
  · rcases hfraction with rfl | ⟨ds, rfl, hds⟩
    · simp
    · simp [hpoint, not_mem_of_digits (u := 44) (by decide) hds.2]

/-- **The commas of an amount.** Deleting them gives the amount back, the sign and the fraction stay as
they are, the digits fall into threes from the right, and each comma stands between two digits. -/
theorem insertCommas_exact :
    (∀ (q : ℚ) decimals, |q| < maxFormattable → ∃ sign whole fraction,
      IsFixed sign whole fraction ∧
      Number.toFixed decimals (.finite q) = sign ++ (whole ++ fraction) ∧
      formatMoney (.finite q) decimals = insertCommas (sign ++ (whole ++ fraction))) ∧
    ∀ sign whole fraction, IsFixed sign whole fraction →
      let fixed := sign ++ (whole ++ fraction)
      let shown := insertCommas fixed
      shown.filter (· ≠ 44) = fixed ∧
      (∃ first : JSString, ∃ groups : List JSString,
        shown = sign ++ ((first ++ groups.flatMap (js "," ++ ·)) ++ fraction) ∧
        first ++ groups.flatten = whole ∧ Digits first ∧ first.length ≤ 3 ∧
        ∀ g ∈ groups, g.length = 3 ∧ Digits g) ∧
      ∀ before after, shown = before ++ (js "," ++ after) →
        (∃ u ∈ before.getLast?, isDigit u = true) ∧ ∃ u ∈ after.head?, isDigit u = true := by
  constructor
  · intro q decimals hq
    obtain ⟨sign, ip, fp, hfixed, hsign, hip, hlen, hfp⟩ := toFixed_eq hq decimals
    refine ⟨sign, ip, _, ⟨hsign, hip, ?_⟩, hfixed, by rw [formatMoney_eq, hfixed]⟩
    split_ifs with hzero
    · exact .inl rfl
    · exact .inr ⟨fp, rfl, List.length_pos_iff.mp (by omega), hfp⟩
  · intro sign whole fraction h fixed shown
    have hshown : shown = sign ++ (grouped false whole ++ fraction) :=
      insertCommas_fixed h.sign h.whole (h.fraction.imp_right fun ⟨ds, hds, hdigits⟩ =>
        ⟨ds, hds, hdigits.2⟩)
    obtain ⟨hsign, hfraction⟩ := h.no_comma
    have hback : (grouped false whole).filter (· ≠ 44) = whole := filter_grouped h.whole.2 false
    refine ⟨?_, ?_, fun before after hcomma => ?_⟩
    · rw [hshown, List.filter_append, List.filter_append, hback, filter_of_no_comma hsign,
        filter_of_no_comma hfraction]
    · obtain ⟨first, groups, hgrouped, hfirst, hshort, hgroups⟩ := grouped_false h.whole
      refine ⟨first, groups, by rw [hshown, hgrouped], ?_, hfirst, hshort, hgroups⟩
      rw [← hback, hgrouped, List.filter_append, filter_comma hfirst.2,
        filter_groups fun g hg => (hgroups g hg).2]
    · have hsplit : sign ++ (grouped false whole ++ fraction) = before ++ 44 :: after := by
        rw [← hshown, hcomma]
        rfl
      obtain ⟨b, a, rfl, rfl, hb⟩ := comma_inside hsign hfraction hsplit
      obtain ⟨hinside, hlast, u, hu, hdigit⟩ := grouped_comma h.whole.2 hb
      have hne : b ≠ [] := fun hnil => Bool.false_ne_true (hinside hnil)
      refine ⟨⟨b.getLast hne, ?_, hlast _ (List.getLast?_eq_getLast_of_ne_nil hne)⟩, u, ?_, hdigit⟩
      · rw [List.getLast?_append_of_ne_nil _ hne]
        exact List.getLast?_eq_getLast_of_ne_nil hne
      · cases a with
        | nil => cases hu
        | cons v a => exact hu

theorem insertCommas_exact_million :
    let shown := insertCommas (js "-" ++ (js "1234567" ++ js ".89"))
    shown = js "-1,234,567.89" ∧ shown.filter (· ≠ 44) = js "-1234567.89" := by
  have hdigits : ∀ s : JSString, (s ≠ [] && s.all isDigit) = true → Digits s := by
    intro s hs
    rw [Bool.and_eq_true, decide_eq_true_eq, List.all_eq_true] at hs
    exact hs
  have h := insertCommas_exact.2 (js "-") (js "1234567") (js ".89")
    ⟨.inr rfl, hdigits _ (by decide), .inr ⟨js "89", by decide, hdigits _ (by decide)⟩⟩
  exact ⟨by decide +kernel, h.1.trans (by decide)⟩

end Spazito.Formatter
