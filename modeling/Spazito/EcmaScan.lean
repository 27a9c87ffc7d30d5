import Spazito.EcmaRegex

set_option autoImplicit false

/-!
# Global replacement

How a global replacement goes through a text, and what of the text it leaves. A pattern is known
here by the words it matches and by whether it asks for a word boundary beside them.
-/
namespace Ecma.Regex

variable {r s : Regex} {p : CodeUnit → Bool} {c e : Cursor} {L M : JSString → Prop}
  {left right : Bool}

/-! ## Patterns by their words -/

/-- The pattern matches the words of `L`; no word unit may stand beside them where a side is
marked. -/
def Reads (r : Regex) (L : JSString → Prop) (left right : Bool) : Prop :=
  ∀ c e, e ∈ run r c ↔ ∃ x, L x ∧ Cursor.Passes c x e ∧
    (left = true → c.before.head?.any isWord = false) ∧
    (right = true → e.rest.head?.any isWord = false)

theorem Denotes.reads (h : Denotes r L) : Reads r L false false := by
  intro c e
  simp [h c e]

theorem Reads.congr (h : Reads r L left right) (hLM : ∀ w, L w ↔ M w) : Reads r M left right := by
  intro c e
  simp only [← hLM, h c e]

theorem mem_run_boundary : e ∈ run boundary c ↔ Cursor.atBoundary c = true ∧ e = c := by
  cases h : Cursor.atBoundary c <;> simp [run, h]

theorem Reads.seq (hr : Denotes r L) (hs : Reads s M false right) :
    Reads (.seq r s) (fun w => ∃ x y, w = x ++ y ∧ L x ∧ M y) false right := by
  intro c e
  rw [mem_run_seq]
  constructor
  · rintro ⟨d, hd, he⟩
    obtain ⟨x, hx, hcd⟩ := (hr c d).mp hd
    obtain ⟨y, hy, hde, -, hright⟩ := (hs d e).mp he
    exact ⟨x ++ y, ⟨x, y, rfl, hx, hy⟩, hcd.trans hde, by simp, hright⟩
  · rintro ⟨w, ⟨x, y, rfl, hx, hy⟩, hpass, -, hright⟩
    obtain ⟨d, hcd, hde⟩ := hpass.split
    exact ⟨d, (hr c d).mpr ⟨x, hx, hcd⟩, (hs d e).mpr ⟨y, hy, hde, by simp, hright⟩⟩

theorem Reads.boundary_seq (hs : Reads s L false right)
    (hL : ∀ x, L x → x.head?.any isWord = true) : Reads (.seq .boundary s) L true right := by
  intro c e
  have hat : ∀ x z, L x → c.rest = x ++ z →
      (Cursor.atBoundary c = true ↔ c.before.head?.any isWord = false) := by
    intro x z hx hc
    have hword := hL x hx
    cases x with
    | nil => simp at hword
    | cons u x =>
      have hu : isWord u = true := by simpa using hword
      simp [Cursor.atBoundary, hc, hu]
  rw [mem_run_seq]
  constructor
  · rintro ⟨d, hd, he⟩
    obtain ⟨hb, rfl⟩ := mem_run_boundary.mp hd
    obtain ⟨x, hx, hpass, -, hright⟩ := (hs d e).mp he
    exact ⟨x, hx, hpass, fun _ => (hat x _ hx hpass.1).mp hb, hright⟩
  · rintro ⟨x, hx, hpass, hleft, hright⟩
    have hb := (hat x _ hx hpass.1).mpr (hleft rfl)
    exact ⟨c, mem_run_boundary.mpr ⟨hb, rfl⟩, (hs c e).mpr ⟨x, hx, hpass, by simp, hright⟩⟩

theorem Reads.seq_boundary (hr : Denotes r L) (hL : ∀ x, L x → x.getLast?.any isWord = true) :
    Reads (.seq r .boundary) L false true := by
  intro c e
  have hat : ∀ x d, L x → Cursor.Passes c x d →
      (Cursor.atBoundary d = true ↔ d.rest.head?.any isWord = false) := by
    intro x d hx hpass
    have hword := hL x hx
    rcases List.eq_nil_or_concat x with rfl | ⟨x, u, rfl⟩
    · simp at hword
    · have hu : isWord u = true := by simpa using hword
      simp [Cursor.atBoundary, hpass.2.1, hu]
  rw [mem_run_seq]
  constructor
  · rintro ⟨d, hd, he⟩
    obtain ⟨hb, rfl⟩ := mem_run_boundary.mp he
    obtain ⟨x, hx, hpass⟩ := (hr c e).mp hd
    exact ⟨x, hx, hpass, by simp, fun _ => (hat x e hx hpass).mp hb⟩
  · rintro ⟨x, hx, hpass, -, hright⟩
    exact ⟨e, (hr c e).mpr ⟨x, hx, hpass⟩,
      mem_run_boundary.mpr ⟨(hat x e hx hpass).mpr (hright rfl), rfl⟩⟩

/-! ## Occurrences -/

/-- A word of `L` occurs in a text that follows `before`, beside word units only where it may. -/
def Occurs (L : JSString → Prop) (left right : Bool) (before t : JSString) : Prop :=
  ∃ v x z, t = v ++ (x ++ z) ∧ L x ∧ (left = true → (v.reverse ++ before).head?.any isWord = false) ∧
    (right = true → z.head?.any isWord = false)

/-- The pattern matches exactly where a word of `L` stands. -/
def Finds (r : Regex) (L : JSString → Prop) (left right : Bool) : Prop :=
  ∀ before t, run r ⟨before, t, []⟩ ≠ [] ↔ ∃ x z, t = x ++ z ∧ L x ∧
    (left = true → before.head?.any isWord = false) ∧
    (right = true → z.head?.any isWord = false)

theorem Reads.finds (h : Reads r L left right) : Finds r L left right := by
  intro before t
  constructor
  · intro hne
    obtain ⟨e, he⟩ := List.exists_mem_of_ne_nil _ hne
    obtain ⟨x, hx, hpass, hleft, hright⟩ := (h _ e).mp he
    exact ⟨x, e.rest, hpass.1, hx, hleft, hright⟩
  · rintro ⟨x, z, rfl, hx, hleft, hright⟩
    exact List.ne_nil_of_mem ((h _ ⟨x.reverse ++ before, z, []⟩).mpr
      ⟨x, hx, ⟨rfl, rfl, rfl⟩, hleft, hright⟩)

theorem Finds.of_beginning (h : Finds r M false false)
    (hML : ∀ x, M x → ∃ y z, x = y ++ z ∧ L y) (hLM : ∀ x, L x → M x) : Finds r L false false := by
  intro before t
  rw [h before t]
  constructor
  · rintro ⟨x, z, rfl, hx, -⟩
    obtain ⟨y, w, rfl, hy⟩ := hML x hx
    exact ⟨y, w ++ z, List.append_assoc .., hy, by simp, by simp⟩
  · rintro ⟨x, z, ht, hx, hsides⟩
    exact ⟨x, z, ht, hLM x hx, hsides⟩

theorem Finds.not_occurs (h : Finds r L left right) (before t : JSString) :
    ¬ Occurs L left right before t ↔
      ∀ v w, t = v ++ w → run r ⟨v.reverse ++ before, w, []⟩ = [] := by
  constructor
  · intro hno v w hvw
    by_contra hne
    obtain ⟨x, z, rfl, hx, hleft, hright⟩ := (h _ _).mp hne
    exact hno ⟨v, x, z, hvw, hx, hleft, hright⟩
  · rintro hno ⟨v, x, z, ht, hx, hleft, hright⟩
    exact (h _ _).mpr ⟨x, z, rfl, hx, hleft, hright⟩ (hno v _ ht)

theorem Finds.test_eq_false (h : Finds r L left right) (t : JSString) :
    test r t = false ↔ ¬ Occurs L left right [] t := by
  rw [h.not_occurs, ← search_none, test, exec]
  cases search r [] t <;> simp

theorem Occurs.mono {before t : JSString} (h : Occurs L left right before t)
    (hLM : ∀ x, L x → M x) : Occurs M false false [] t := by
  obtain ⟨v, x, z, ht, hx, -, -⟩ := h
  exact ⟨v, x, z, ht, hLM x hx, by simp, by simp⟩

theorem occurs_congr {before before' : JSString}
    (h : before.head?.any isWord = before'.head?.any isWord) (t : JSString) :
    Occurs L left right before t ↔ Occurs L left right before' t := by
  have hsame : ∀ v : JSString, (v.reverse ++ before).head?.any isWord =
      (v.reverse ++ before').head?.any isWord := by
    intro v
    cases hv : v.reverse with
    | nil => simpa using h
    | cons u w => rfl
  simp only [Occurs, hsame]

theorem word_beside {a t v x z : JSString} {u : CodeUnit} (hu : u ∉ x)
    (h : a ++ u :: t = v ++ (x ++ z)) :
    (∃ z', a = v ++ (x ++ z') ∧ z = z' ++ u :: t) ∨ ∃ v', v = a ++ u :: v' ∧ t = v' ++ (x ++ z) := by
  rw [← List.append_assoc] at h
  rcases List.append_eq_append_iff.mp h with ⟨w, hw, hz⟩ | ⟨w, rfl, rfl⟩
  · cases w with
    | nil => exact .inl ⟨[], by simpa using hw.symm, by simpa using hz.symm⟩
    | cons y w =>
      obtain ⟨rfl, rfl⟩ : u = y ∧ t = w ++ z := by simpa using hz
      rcases List.append_eq_append_iff.mp hw with ⟨w', -, hw'⟩ | ⟨w', rfl, hw'⟩
      · exact absurd (by simp [hw']) hu
      · cases w' with
        | nil => exact absurd (by simp [← show u :: w = x from hw']) hu
        | cons y' v' =>
          obtain ⟨rfl, rfl⟩ : u = y' ∧ w = v' ++ x := by simpa using hw'
          exact .inr ⟨v', rfl, by simp⟩
  · exact .inl ⟨w, by simp, rfl⟩

theorem occurs_append_cons {u : CodeUnit} (hu : isWord u = false) (hL : ∀ x, L x → u ∉ x)
    (before a t : JSString) : Occurs L left right before (a ++ u :: t) ↔
      Occurs L left right before a ∨ Occurs L left right [] t := by
  constructor
  · rintro ⟨v, x, z, h, hx, hleft, hright⟩
    rcases word_beside (hL x hx) h with ⟨z', rfl, rfl⟩ | ⟨v', rfl, rfl⟩
    · refine .inl ⟨v, x, z', rfl, hx, hleft, fun hr => ?_⟩
      have hz := hright hr
      cases z' with
      | nil => rfl
      | cons y z' => simpa using hz
    · refine .inr ⟨v', x, z, rfl, hx, fun hl => ?_, hright⟩
      have hv := hleft hl
      rcases List.eq_nil_or_concat v' with rfl | ⟨v', y, rfl⟩
      · rfl
      · simpa using hv
  · rintro (⟨v, x, z, rfl, hx, hleft, hright⟩ | ⟨v, x, z, rfl, hx, hleft, hright⟩)
    · refine ⟨v, x, z ++ u :: t, by simp, hx, hleft, fun hr => ?_⟩
      have hz := hright hr
      cases z with
      | nil => simpa using hu
      | cons y z => simpa using hz
    · refine ⟨a ++ u :: v, x, z, by simp, hx, fun hl => ?_, hright⟩
      have hv := hleft hl
      rcases List.eq_nil_or_concat v with rfl | ⟨v, y, rfl⟩
      · simpa using hu
      · simpa using hv

/-! ## Going through a text -/

/-- A pass over a text that follows `before`: what lies before each match, the matches, and what
is left after the last one. -/
inductive Scan (r : Regex) : JSString → JSString → List (JSString × JSString) → JSString → Prop
  | done {before t : JSString} (h : ∀ v w, t = v ++ w → run r ⟨v.reverse ++ before, w, []⟩ = []) :
    Scan r before t [] t
  | hit {before gap m t last : JSString} {hits : List (JSString × JSString)} {e : Cursor}
    (hgap : ∀ v w, gap = v ++ w → w ≠ [] → run r ⟨v.reverse ++ before, w ++ (m ++ t), []⟩ = [])
    (hm : m ≠ []) (he : (run r ⟨gap.reverse ++ before, m ++ t, []⟩).head? = some e)
    (ht : e.rest = t) (hscan : Scan r (m.reverse ++ (gap.reverse ++ before)) t hits last) :
    Scan r before (gap ++ (m ++ t)) ((gap, m) :: hits) last

def joined (text : JSString) : List (JSString × JSString) → JSString → JSString
  | [], last => last
  | (gap, _) :: hits, last => gap ++ (text ++ joined text hits last)

variable {text before : JSString}

theorem replaceFrom_skip (m t : JSString) :
    replaceFrom r text m.length before (m ++ t) = replaceFrom r text 0 (m.reverse ++ before) t := by
  induction m generalizing before with
  | nil => rfl
  | cons u m ih =>
    rw [List.cons_append, replaceFrom, if_pos (by simp)]
    simpa using @ih (u :: before)

theorem replaceFrom_nil (h : run r ⟨before, [], []⟩ = []) : replaceFrom r text 0 before [] = [] := by
  simp [replaceFrom, h]

theorem replaceFrom_miss {u : CodeUnit} {t : JSString} (h : run r ⟨before, u :: t, []⟩ = []) :
    replaceFrom r text 0 before (u :: t) = u :: replaceFrom r text 0 (u :: before) t := by
  simp [replaceFrom, h]

theorem replaceFrom_hit {m t : JSString} (hm : m ≠ [])
    (he : (run r ⟨before, m ++ t, []⟩).head? = some e) (ht : e.rest = t) :
    replaceFrom r text 0 before (m ++ t) =
      text ++ replaceFrom r text 0 (m.reverse ++ before) t := by
  cases m with
  | nil => exact absurd rfl hm
  | cons u m =>
    rw [List.cons_append] at he
    rw [List.cons_append, replaceFrom, if_neg (Nat.lt_irrefl 0), he]
    have hskip : (m ++ t).length - e.rest.length = m.length := by simp [ht]
    have hlen : ¬ e.rest.length = (m ++ t).length + 1 := by
      simp only [ht, List.length_append]
      omega
    simp only [if_neg hlen, hskip, replaceFrom_skip, List.reverse_cons, List.append_assoc,
      List.singleton_append]

theorem replaceFrom_insert {u : CodeUnit} {t : JSString}
    (he : (run r ⟨before, u :: t, []⟩).head? = some e) (ht : e.rest = u :: t) :
    replaceFrom r text 0 before (u :: t) = text ++ u :: replaceFrom r text 0 (u :: before) t := by
  simp [replaceFrom, he, ht]

theorem replaceFrom_gap {gap t : JSString}
    (h : ∀ v w, gap = v ++ w → w ≠ [] → run r ⟨v.reverse ++ before, w ++ t, []⟩ = []) :
    replaceFrom r text 0 before (gap ++ t) =
      gap ++ replaceFrom r text 0 (gap.reverse ++ before) t := by
  induction gap generalizing before with
  | nil => rfl
  | cons u gap ih =>
    have hmiss : run r ⟨before, u :: (gap ++ t), []⟩ = [] := h [] (u :: gap) rfl (by simp)
    rw [List.cons_append, replaceFrom_miss hmiss, ih]
    · simp
    · intro v w hvw hw
      simpa using h (u :: v) w (by rw [hvw, List.cons_append]) hw

theorem Scan.replaceFrom_eq {t last : JSString} {hits : List (JSString × JSString)}
    (h : Scan r before t hits last) : replaceFrom r text 0 before t = joined text hits last := by
  induction h with
  | @done before t h =>
    have hgap : replaceFrom r text 0 before (t ++ []) =
        t ++ replaceFrom r text 0 (t.reverse ++ before) [] :=
      replaceFrom_gap fun v w hvw _ => by simpa using h v w hvw
    have hend : run r ⟨t.reverse ++ before, [], []⟩ = [] := h t [] (by simp)
    rw [List.append_nil, replaceFrom_nil hend, List.append_nil] at hgap
    exact hgap
  | hit hgap hm he ht _ ih =>
    rw [replaceFrom_gap hgap, replaceFrom_hit hm he ht, ih]
    rfl

def Consumes (r : Regex) : Prop := ∀ c, ∀ e ∈ run r c, ∃ m, m ≠ [] ∧ c.rest = m ++ e.rest

theorem Reads.consumes (h : Reads r L left right) (hL : ¬ L []) : Consumes r := by
  intro c e he
  obtain ⟨x, hx, hpass, -⟩ := (h c e).mp he
  exact ⟨x, by rintro rfl; exact hL hx, hpass.1⟩

theorem Scan.miss {u : CodeUnit} {t last : JSString} {hits : List (JSString × JSString)}
    (hu : run r ⟨before, u :: t, []⟩ = []) (h : Scan r (u :: before) t hits last) :
    ∃ hits' last', Scan r before (u :: t) hits' last' := by
  cases h with
  | done h =>
    refine ⟨_, _, .done fun v w hvw => ?_⟩
    cases v with
    | nil => simpa [← show u :: t = w from hvw] using hu
    | cons y v =>
      obtain ⟨rfl, rfl⟩ : u = y ∧ t = v ++ w := by simpa using hvw
      simpa using h v w rfl
  | @hit _ gap m t _ hits _ hgap hm he ht hscan =>
    have hfirst : ∀ v w, u :: gap = v ++ w → w ≠ [] →
        run r ⟨v.reverse ++ before, w ++ (m ++ t), []⟩ = [] := by
      intro v w hvw hw
      cases v with
      | nil => simpa [← show u :: gap = w from hvw] using hu
      | cons y v =>
        obtain ⟨rfl, rfl⟩ : u = y ∧ gap = v ++ w := by simpa using hvw
        simpa using hgap v w rfl hw
    have h' : Scan r before ((u :: gap) ++ (m ++ t)) ((u :: gap, m) :: hits) last :=
      .hit hfirst hm (by simpa using he) ht (by simpa using hscan)
    exact ⟨_, _, h'⟩

theorem exists_scan (hr : Consumes r) (before t : JSString) :
    ∃ hits last, Scan r before t hits last := by
  induction hn : t.length using Nat.strong_induction_on generalizing before t with
  | h n ih =>
    cases hrun : (run r ⟨before, t, []⟩).head? with
    | none =>
      rw [List.head?_eq_none_iff] at hrun
      cases t with
      | nil =>
        refine ⟨_, _, .done fun v w hvw => ?_⟩
        obtain ⟨rfl, rfl⟩ : v = [] ∧ w = [] := by simpa using hvw.symm
        exact hrun
      | cons u t =>
        obtain ⟨hits, last, h⟩ := ih t.length (by simp [← hn]) (u :: before) t rfl
        exact h.miss hrun
    | some e =>
      obtain ⟨m, hm, ht⟩ := hr _ e (List.mem_of_head? hrun)
      obtain rfl : t = m ++ e.rest := ht
      have hlen : e.rest.length < n := by
        have := List.length_pos_iff.mpr hm
        simp only [List.length_append] at hn
        omega
      obtain ⟨hits, last, h⟩ := ih _ hlen (m.reverse ++ before) e.rest rfl
      have h' : Scan r before ([] ++ (m ++ e.rest)) (([], m) :: hits) last :=
        .hit (fun v w hvw hw => absurd (List.append_eq_nil_iff.mp hvw.symm).2 hw) hm hrun rfl h
      exact ⟨_, _, h'⟩

/-- What a global replacement leaves of the text, piece by piece. -/
def gapsFrom (r : Regex) (skip : ℕ) (before : JSString) : JSString → List JSString
  | [] => [[]]
  | u :: s =>
    if 0 < skip then gapsFrom r (skip - 1) (u :: before) s
    else match (run r ⟨before, u :: s, []⟩).head? with
      | none => (gapsFrom r 0 (u :: before) s).modifyHead (u :: ·)
      | some e => [] :: gapsFrom r (s.length - e.rest.length) (u :: before) s

def gaps (r : Regex) (s : JSString) : List JSString := gapsFrom r 0 [] s

example : gaps (unit isDigit) (js "a1bc2") = [js "a", js "bc", []] := by decide

theorem gapsFrom_skip (m t : JSString) :
    gapsFrom r m.length before (m ++ t) = gapsFrom r 0 (m.reverse ++ before) t := by
  induction m generalizing before with
  | nil => rfl
  | cons u m ih =>
    rw [List.cons_append, gapsFrom, if_pos (by simp)]
    simpa using @ih (u :: before)

theorem gapsFrom_hit {m t : JSString} (hm : m ≠ [])
    (he : (run r ⟨before, m ++ t, []⟩).head? = some e) (ht : e.rest = t) :
    gapsFrom r 0 before (m ++ t) = [] :: gapsFrom r 0 (m.reverse ++ before) t := by
  cases m with
  | nil => exact absurd rfl hm
  | cons u m =>
    rw [List.cons_append] at he
    rw [List.cons_append, gapsFrom, if_neg (Nat.lt_irrefl 0), he]
    have hskip : (m ++ t).length - e.rest.length = m.length := by simp [ht]
    simp only [hskip, gapsFrom_skip, List.reverse_cons, List.append_assoc, List.singleton_append]

theorem gapsFrom_gap {gap t : JSString}
    (h : ∀ v w, gap = v ++ w → w ≠ [] → run r ⟨v.reverse ++ before, w ++ t, []⟩ = []) :
    gapsFrom r 0 before (gap ++ t) =
      (gapsFrom r 0 (gap.reverse ++ before) t).modifyHead (gap ++ ·) := by
  induction gap generalizing before with
  | nil =>
    rw [List.nil_append, List.reverse_nil, List.nil_append]
    cases gapsFrom r 0 before t <;> rfl
  | cons u gap ih =>
    have hmiss : run r ⟨before, u :: (gap ++ t), []⟩ = [] := h [] (u :: gap) rfl (by simp)
    rw [List.cons_append, gapsFrom, if_neg (Nat.lt_irrefl 0), hmiss, List.head?_nil, ih]
    · simp only [List.reverse_cons, List.append_assoc, List.singleton_append]
      cases gapsFrom r 0 (gap.reverse ++ u :: before) t <;> rfl
    · intro v w hvw hw
      simpa using h (u :: v) w (by rw [hvw, List.cons_append]) hw

theorem Scan.gapsFrom_eq {t last : JSString} {hits : List (JSString × JSString)}
    (h : Scan r before t hits last) : gapsFrom r 0 before t = hits.map Prod.fst ++ [last] := by
  induction h with
  | @done before t h =>
    have hgap : gapsFrom r 0 before (t ++ []) =
        (gapsFrom r 0 (t.reverse ++ before) []).modifyHead (t ++ ·) :=
      gapsFrom_gap fun v w hvw _ => by simpa using h v w hvw
    rw [List.append_nil] at hgap
    rw [hgap]
    simp [gapsFrom]
  | hit hgap hm he ht _ ih =>
    rw [gapsFrom_gap hgap, gapsFrom_hit hm he ht, ih]
    simp

/-- The pieces, each with the match before it and the one after it. -/
def beside : Option JSString → List (JSString × JSString) → JSString →
    List (Option JSString × JSString × Option JSString)
  | previous, [], last => [(previous, last, none)]
  | previous, (gap, m) :: hits, last => (previous, gap, some m) :: beside (some m) hits last

theorem beside_pieces (previous : Option JSString) (hits : List (JSString × JSString)) (last : JSString) :
    (beside previous hits last).map (·.2.1) = hits.map Prod.fst ++ [last] := by
  induction hits generalizing previous with
  | nil => rfl
  | cons hit hits ih => exact congrArg (hit.1 :: ·) (ih _)

theorem Scan.split {t last : JSString} {hits : List (JSString × JSString)}
    (h : Scan r before t hits last) {previous : Option JSString}
    {p : Option JSString × JSString × Option JSString} (hp : p ∈ beside previous hits last) :
    ∃ front back, t = front ++ (p.2.1 ++ back) ∧
      (p.1 = none → previous = none ∧ front = []) ∧ (p.2.2 = none → back = []) := by
  induction h generalizing previous with
  | @done before t _ =>
    obtain rfl := List.mem_singleton.mp hp
    exact ⟨[], [], by simp, fun h => ⟨h, rfl⟩, fun _ => rfl⟩
  | @hit before gap m t last hits e _ _ _ _ _ ih =>
    rcases List.mem_cons.mp hp with rfl | hp
    · exact ⟨[], m ++ t, rfl, fun h => ⟨h, rfl⟩, by rintro ⟨⟩⟩
    · obtain ⟨front, back, rfl, hfirst, hlast⟩ := ih hp
      exact ⟨gap ++ (m ++ front), back, by simp, fun h => absurd (hfirst h).1 (by simp), hlast⟩

/-- A word that may stand in the piece by itself stands at one end of it, at a match. -/
def Abuts (L : JSString → Prop) (left right : Bool)
    (p : Option JSString × JSString × Option JSString) : Prop :=
  ∃ v x z, p.2.1 = v ++ (x ++ z) ∧ L x ∧ (left = true → v.getLast?.any isWord = false) ∧
    (right = true → z.head?.any isWord = false) ∧
    (left = true ∧ v = [] ∧ p.1 ≠ none ∨ right = true ∧ z = [] ∧ p.2.2 ≠ none)

theorem Scan.abuts {t last : JSString} {hits : List (JSString × JSString)}
    (h : Scan r [] t hits last) (hno : ¬ Occurs L left right [] t)
    {p : Option JSString × JSString × Option JSString} (hp : p ∈ beside none hits last) :
    Occurs L left right [] p.2.1 ↔ Abuts L left right p := by
  constructor
  · rintro ⟨v, x, z, hpiece, hx, hleft, hright⟩
    rw [List.append_nil, List.head?_reverse] at hleft
    refine ⟨v, x, z, hpiece, hx, hleft, hright, ?_⟩
    by_contra hfar
    rw [not_or, not_and, not_and, not_and, not_and, not_not, not_not] at hfar
    obtain ⟨front, back, rfl, hfirst, hlast⟩ := h.split hp
    refine hno ⟨front ++ v, x, z ++ back, by simp [hpiece], hx, fun hl => ?_, fun hr => ?_⟩
    · by_cases hv : v = []
      · rw [(hfirst (hfar.1 hl hv)).2, hv]
        rfl
      · rw [List.append_nil, List.reverse_append,
          List.head?_append_of_ne_nil _ (by simpa using hv), List.head?_reverse]
        exact hleft hl
    · by_cases hz : z = []
      · rw [hlast (hfar.2 hr hz), hz]
        rfl
      · rw [List.head?_append_of_ne_nil _ hz]
        exact hright hr
  · rintro ⟨v, x, z, hpiece, hx, hleft, hright, -⟩
    rw [← List.head?_reverse, ← List.append_nil v.reverse] at hleft
    exact ⟨v, x, z, hpiece, hx, hleft, hright⟩

theorem replaceAll_of_test {t : JSString} (h : test r t = false) : replaceAll r text t = t := by
  have hnone : search r [] t = none := by
    cases hs : search r [] t with
    | none => rfl
    | some m => simp [test, exec, hs] at h
  have hscan : Scan r [] t [] t := .done (search_none.mp hnone)
  exact hscan.replaceFrom_eq

theorem replaceAll_of_same {t : JSString} (hr : Consumes r)
    (h : ∀ v w e, t = v ++ w → (run r ⟨v.reverse, w, []⟩).head? = some e → w = text ++ e.rest) :
    replaceAll r text t = t := by
  obtain ⟨hits, last, hscan⟩ := exists_scan hr [] t
  rw [replaceAll, hscan.replaceFrom_eq]
  suffices hall : ∀ (before u : JSString) (hits : List (JSString × JSString)) (last : JSString),
      Scan r before u hits last → (∀ v w e, u = v ++ w →
        (run r ⟨v.reverse ++ before, w, []⟩).head? = some e → w = text ++ e.rest) →
      joined text hits last = u from hall [] t hits last hscan (by simpa using h)
  intro before u hits last hscan
  induction hscan with
  | done _ => exact fun _ => rfl
  | @hit before gap m t last hits e _ hm he ht _ ih =>
    intro hsame
    have hm' : m = text := by
      have hw := hsame gap (m ++ t) e rfl he
      rw [ht] at hw
      exact List.append_cancel_right hw
    rw [joined, ih fun v w e hvw he => ?_, hm']
    exact hsame (gap ++ (m ++ v)) w e (by simp [hvw]) (by simpa using he)

/-! ## Words of one pattern in what another leaves -/

/-- What is put in place of a match keeps the words of `L` on either side apart, and has none. -/
structure Shields (text : JSString) (L : JSString → Prop) : Prop where
  brackets : ∃ o mid cl, text = o :: (mid ++ [cl]) ∧ isWord o = false ∧ isWord cl = false ∧
    (∀ x, L x → o ∉ x ∧ cl ∉ x) ∧ ¬ Occurs L false false [] mid

theorem occurs_joined (ht : Shields text L) (before : JSString) (hits : List (JSString × JSString))
    (last : JSString) (hbefore : before.head?.any isWord = false) :
    Occurs L left right before (joined text hits last) ↔
      (∃ hit ∈ hits, Occurs L left right [] hit.1) ∨ Occurs L left right [] last := by
  obtain ⟨o, mid, cl, rfl, ho, hcl, hL, hmid⟩ := ht.brackets
  induction hits generalizing before with
  | nil => simp [joined, occurs_congr (show before.head?.any isWord = ([] : JSString).head?.any isWord
      from hbefore) last]
  | cons hit hits ih =>
    obtain ⟨gap, m⟩ := hit
    have hsplit : joined (o :: (mid ++ [cl])) ((gap, m) :: hits) last =
        gap ++ o :: (mid ++ cl :: joined (o :: (mid ++ [cl])) hits last) := by simp [joined]
    have hno : ¬ Occurs L left right [] mid := fun h => hmid (h.mono fun _ => id)
    rw [hsplit, occurs_append_cons ho (fun x hx => (hL x hx).1),
      occurs_append_cons hcl (fun x hx => (hL x hx).2), ih [] rfl,
      occurs_congr (show before.head?.any isWord = ([] : JSString).head?.any isWord from hbefore) gap]
    simp only [hno, false_or, List.mem_cons, exists_eq_or_imp, or_assoc]

theorem Occurs.after {t : JSString} (h : Occurs L left right [] t)
    (hfirst : left = true → before = [] ∨ ∀ x z, t = x ++ z → ¬ L x) :
    Occurs L left right before t := by
  obtain ⟨v, x, z, rfl, hx, hleft, hright⟩ := h
  refine ⟨v, x, z, rfl, hx, fun hl => ?_, hright⟩
  have hv := hleft hl
  rcases List.eq_nil_or_concat v with rfl | ⟨v, y, rfl⟩
  · rcases hfirst hl with rfl | hno
    · rfl
    · exact absurd hx (hno x z rfl)
  · simpa using hv

/-- No word of `L` begins where a match has ended, or ends where one begins. -/
structure Apart (r : Regex) (L : JSString → Prop) (left right : Bool) : Prop where
  after : left = true → ∀ before m t e, (run r ⟨before, m ++ t, []⟩).head? = some e → e.rest = t →
    ∀ x z, t = x ++ z → ¬ L x
  before : right = true → ∀ v x w, run r ⟨x.reverse ++ v, w, []⟩ ≠ [] → ¬ L x

theorem Apart.none : Apart r L false false := ⟨by simp, by simp⟩

theorem Apart.widen (hapart : Apart r L left right) {gap m t : JSString}
    (he : run r ⟨gap.reverse ++ before, m ++ t, []⟩ ≠ [])
    (hfirst : left = true → before = [] ∨ ∀ x z, gap = x ++ z → ¬ L x)
    (hocc : Occurs L left right [] gap) : ∃ v x z, gap = v ++ (x ++ z) ∧ L x ∧
      (left = true → (v.reverse ++ before).head?.any isWord = false) ∧
      (right = true → (z ++ (m ++ t)).head?.any isWord = false) := by
  obtain ⟨v, x, z, rfl, hx, hleft, hright⟩ := hocc.after hfirst
  refine ⟨v, x, z, rfl, hx, hleft, fun hr => ?_⟩
  cases z with
  | nil => exact absurd hx (hapart.before hr (v.reverse ++ before) x (m ++ t) (by simpa using he))
  | cons y z => simpa using hright hr

/-- An occurrence in what a pass leaves was in the text before it. -/
theorem Scan.occurs {t last : JSString} {hits : List (JSString × JSString)}
    (h : Scan r before t hits last) (hapart : Apart r L left right)
    (hfirst : left = true → before = [] ∨ ∀ x z, t = x ++ z → ¬ L x)
    (hocc : (∃ hit ∈ hits, Occurs L left right [] hit.1) ∨ Occurs L left right [] last) :
    Occurs L left right before t := by
  induction h with
  | done _ =>
    rcases hocc with ⟨hit, hmem, -⟩ | hocc
    · simp at hmem
    · exact hocc.after hfirst
  | @hit before gap m t last hits e _ _ he ht _ ih =>
    simp only [List.mem_cons, exists_eq_or_imp, or_assoc] at hocc
    rcases hocc with hocc | hocc
    · obtain ⟨v, x, z, rfl, hx, hleft, hright⟩ :=
        hapart.widen (List.ne_nil_of_mem (List.mem_of_head? he))
          (fun hl => (hfirst hl).imp_right fun hno x z hxz => hno x (z ++ (m ++ t)) (by simp [hxz]))
          hocc
      exact ⟨v, x, z ++ (m ++ t), by simp, hx, hleft, hright⟩
    · obtain ⟨v, x, z, rfl, hx, hleft, hright⟩ :=
        ih (fun hl => .inr (hapart.after hl _ m t e he ht)) hocc
      exact ⟨gap ++ (m ++ v), x, z, by simp, hx, fun hl => by simpa using hleft hl, hright⟩

theorem Scan.not_occurs {t last : JSString} {hits : List (JSString × JSString)}
    (h : Scan r before t hits last) (hr : Finds r L left right) (hL : ¬ L [])
    (hapart : Apart r L left right)
    (hfirst : left = true → before = [] ∨ ∀ x z, t = x ++ z → ¬ L x) :
    ¬ ((∃ hit ∈ hits, Occurs L left right [] hit.1) ∨ Occurs L left right [] last) := by
  induction h with
  | @done before t hnone =>
    rintro (⟨hit, hmem, -⟩ | hocc)
    · simp at hmem
    · exact (hr.not_occurs before t).mpr hnone (hocc.after hfirst)
  | @hit before gap m t last hits e hgap _ he ht _ ih =>
    simp only [List.mem_cons, exists_eq_or_imp, or_assoc]
    rintro (hocc | hocc)
    · obtain ⟨v, x, z, rfl, hx, hleft, hright⟩ :=
        hapart.widen (List.ne_nil_of_mem (List.mem_of_head? he))
          (fun hl => (hfirst hl).imp_right fun hno x z hxz => hno x (z ++ (m ++ t)) (by simp [hxz]))
          hocc
      refine (hr _ _).mpr ⟨x, z ++ (m ++ t), by simp, hx, hleft, hright⟩
        (hgap v (x ++ z) rfl fun hnil => hL ?_)
      rwa [(List.append_eq_nil_iff.mp hnil).1] at hx
    · exact ih (fun hl => .inr (hapart.after hl _ m t e he ht)) hocc

theorem not_occurs_replaceAll_self (hr : Finds r L left right) (hc : Consumes r) (hL : ¬ L [])
    (ht : Shields text L) (hapart : Apart r L left right) (t : JSString) :
    ¬ Occurs L left right [] (replaceAll r text t) := by
  obtain ⟨hits, last, hscan⟩ := exists_scan hc [] t
  rw [replaceAll, hscan.replaceFrom_eq, occurs_joined ht [] hits last rfl]
  exact hscan.not_occurs hr hL hapart fun _ => .inl rfl

/-- The words that a pass leaves or brings are those of the pieces it leaves, each by itself. -/
theorem occurs_replaceAll (hr : Consumes r) (ht : Shields text L) (t : JSString) :
    Occurs L left right [] (replaceAll r text t) ↔ ∃ gap ∈ gaps r t, Occurs L left right [] gap := by
  obtain ⟨hits, last, hscan⟩ := exists_scan hr [] t
  rw [replaceAll, hscan.replaceFrom_eq, occurs_joined ht [] hits last rfl, gaps, hscan.gapsFrom_eq]
  simp [or_and_right, exists_or]

theorem not_occurs_replaceAll {t : JSString} (hr : Consumes r) (ht : Shields text L)
    (hapart : Apart r L left right) (hno : ¬ Occurs L left right [] t) :
    ¬ Occurs L left right [] (replaceAll r text t) := by
  obtain ⟨hits, last, hscan⟩ := exists_scan hr [] t
  rw [replaceAll, hscan.replaceFrom_eq, occurs_joined ht [] hits last rfl]
  exact fun hocc => hno (hscan.occurs hapart (fun _ => .inl rfl) hocc)

/-! ## Greedy ends -/

/-- What follows the preferred match is not of the class. -/
def Greedy (r : Regex) (p : CodeUnit → Bool) : Prop :=
  ∀ c e, (run r c).head? = some e → e.rest.head?.any p = false

theorem Greedy.seq (hs : Greedy s p) : Greedy (.seq r s) p := by
  intro c e he
  rw [run, List.head?_flatMap] at he
  obtain ⟨d, -, hd⟩ := List.exists_of_findSome?_eq_some he
  exact hs d e hd

theorem upTo_ne_nil (step : Cursor → List Cursor) (n : ℕ) (c : Cursor) : upTo step n c ≠ [] := by
  cases n <;> simp [upTo]

theorem upTo_unit_head (n : ℕ) (hn : c.rest.length ≤ n)
    (he : (upTo (run (unit p)) n c).head? = some e) : e.rest.head?.any p = false := by
  induction n generalizing c with
  | zero =>
    obtain rfl : c = e := by simpa [upTo] using he
    simp [List.length_eq_zero_iff.mp (Nat.le_zero.mp hn)]
  | succ n ih =>
    cases hc : c.rest with
    | nil =>
      obtain rfl : c = e := by simpa [upTo, run, hc] using he
      simp [hc]
    | cons u t =>
      by_cases hu : p u = true
      · have hstep : upTo (run (unit p)) (n + 1) c =
            upTo (run (unit p)) n ⟨u :: c.before, t, c.groups⟩ ++ [c] := by
          simp [upTo, run, hc, hu]
        rw [hstep, List.head?_append_of_ne_nil _ (upTo_ne_nil _ _ _)] at he
        exact ih (by simpa [hc] using hn) he
      · obtain rfl : c = e := by simpa [upTo, run, hc, hu] using he
        simpa [hc] using hu

theorem greedy_rep_unit (least : ℕ) : Greedy (rep least none (unit p)) p := by
  intro c e he
  rw [run, List.head?_flatMap] at he
  obtain ⟨d, -, hd⟩ := List.exists_of_findSome?_eq_some he
  exact upTo_unit_head _ le_rfl hd

/-! ## Surroundings

A pattern without look-ahead runs the same before a unit that none of its classes accept as before
the end of the text. -/

/-- Nothing of the pattern passes over this unit, or over the end of the text; where boundaries are
asked for, it counts as no word unit. -/
def stops (edges : Bool) (s : Option CodeUnit) : Regex → Bool
  | empty => true
  | unit p => !s.any p
  | seq r t | alt r t => stops edges s r && stops edges s t
  | rep _ _ r => stops edges s r
  | boundary | noBoundary => edges && !s.any isWord
  | group _ _ | ahead _ | notAhead _ | start | finish => false

structure Cursor.Like (edges : Bool) (tail : JSString) (c d : Cursor) : Prop where
  rest : d.rest = c.rest ++ tail
  before : edges = true → c.before.head?.any isWord = d.before.head?.any isWord

section
variable {edges : Bool} {tail : JSString} {d : Cursor}

theorem times_like {step : Cursor → List Cursor}
    (hstep : ∀ c d, Cursor.Like edges tail c d →
      List.Forall₂ (Cursor.Like edges tail) (step c) (step d)) (n : ℕ)
    (h : Cursor.Like edges tail c d) :
    List.Forall₂ (Cursor.Like edges tail) (times step n c) (times step n d) := by
  induction n generalizing c d with
  | zero => exact .cons h .nil
  | succ n ih => exact List.rel_flatMap (hstep c d h) fun _ _ h => ih h

theorem shorter_like {l l' : List Cursor} (h : Cursor.Like edges tail c d)
    (hl : List.Forall₂ (Cursor.Like edges tail) l l') :
    List.Forall₂ (fun c' d' => Cursor.Like edges tail c' d' ∧ c'.rest.length < c.rest.length ∧
      d'.rest.length < d.rest.length) (l.filter fun e => decide (e.rest.length < c.rest.length))
      (l'.filter fun e => decide (e.rest.length < d.rest.length)) := by
  induction hl with
  | nil => exact .nil
  | @cons c' d' l l' h' _ ih =>
    have hsame : d'.rest.length < d.rest.length ↔ c'.rest.length < c.rest.length := by
      simp [h.rest, h'.rest]
    by_cases hlt : c'.rest.length < c.rest.length
    · have hlt' := hsame.mpr hlt
      rw [List.filter_cons_of_pos (by simpa using hlt), List.filter_cons_of_pos (by simpa using hlt')]
      exact .cons ⟨h', hlt, hlt'⟩ ih
    · have hlt' := mt hsame.mp hlt
      rw [List.filter_cons_of_neg (by simpa using hlt), List.filter_cons_of_neg (by simpa using hlt')]
      exact ih

theorem upTo_like {step : Cursor → List Cursor}
    (hstep : ∀ c d, Cursor.Like edges tail c d →
      List.Forall₂ (Cursor.Like edges tail) (step c) (step d)) (n m : ℕ)
    (hnm : n = m ∨ (c.rest.length ≤ n ∧ d.rest.length ≤ m)) (h : Cursor.Like edges tail c d) :
    List.Forall₂ (Cursor.Like edges tail) (upTo step n c) (upTo step m d) := by
  induction n generalizing m c d with
  | zero =>
    cases m with
    | zero => exact .cons h .nil
    | succ m =>
      have hlen : c.rest.length = 0 := by
        rcases hnm with hnm | hnm <;> omega
      have hempty : (step d).filter (fun e => decide (e.rest.length < d.rest.length)) = [] := by
        rw [← List.length_eq_zero_iff, ← (shorter_like h (hstep c d h)).length_eq]
        simp [hlen]
      rw [show upTo step (m + 1) d = ((step d).filter fun e =>
        decide (e.rest.length < d.rest.length)).flatMap (upTo step m) ++ [d] from rfl, hempty]
      exact .cons h .nil
  | succ n ih =>
    cases m with
    | zero =>
      have hlen : c.rest.length = 0 := by
        have hd : d.rest.length = c.rest.length + tail.length := by simp [h.rest]
        rcases hnm with hnm | hnm <;> omega
      rw [show upTo step (n + 1) c = ((step c).filter fun e =>
        decide (e.rest.length < c.rest.length)).flatMap (upTo step n) ++ [c] from rfl]
      simp only [hlen, Nat.not_lt_zero, decide_false, List.filter_false, List.flatMap_nil,
        List.nil_append]
      exact .cons h .nil
    | succ m =>
      refine List.rel_append (List.rel_flatMap (shorter_like h (hstep c d h)) ?_) (.cons h .nil)
      rintro c' d' ⟨h', hlt, hlt'⟩
      refine ih m ?_ h'
      rcases hnm with hnm | ⟨hn, hm⟩
      · exact .inl (Nat.succ_injective hnm)
      · exact .inr ⟨by omega, by omega⟩

theorem atBoundary_like (hr : (edges && !tail.head?.any isWord) = true)
    (h : Cursor.Like edges tail c d) : Cursor.atBoundary c = Cursor.atBoundary d := by
  obtain ⟨hedges, htail⟩ := Bool.and_eq_true_iff.mp hr
  have hrest : c.rest.head?.any isWord = d.rest.head?.any isWord := by
    rw [h.rest]
    cases c.rest with
    | nil => simpa using htail
    | cons u t => rfl
  rw [Cursor.atBoundary, Cursor.atBoundary, h.before hedges, hrest]

theorem run_like (hr : stops edges tail.head? r = true) (h : Cursor.Like edges tail c d) :
    List.Forall₂ (Cursor.Like edges tail) (run r c) (run r d) := by
  induction r generalizing c d with
  | empty => exact .cons h .nil
  | unit p =>
    cases hc : c.rest with
    | nil =>
      have hd : d.rest = tail := by simp [h.rest, hc]
      cases tail with
      | nil => simp [run, hc, hd]
      | cons u tail =>
        have hu : p u = false := by simpa [stops] using hr
        simp [run, hc, hd, hu]
    | cons u t =>
      have hd : d.rest = u :: (t ++ tail) := by simp [h.rest, hc]
      by_cases hu : p u = true
      · simp only [run, hc, hd, hu, ↓reduceIte]
        exact .cons ⟨rfl, fun _ => rfl⟩ .nil
      · simp [run, hc, hd, hu]
  | seq r t ihr iht =>
    obtain ⟨hr, ht⟩ := Bool.and_eq_true_iff.mp hr
    exact List.rel_flatMap (ihr hr h) fun _ _ h => iht ht h
  | alt r t ihr iht =>
    obtain ⟨hr, ht⟩ := Bool.and_eq_true_iff.mp hr
    exact List.rel_append (ihr hr h) (iht ht h)
  | rep least most r ih =>
    refine List.rel_flatMap (times_like (fun _ _ h => ih hr h) least h) fun c d h => ?_
    refine upTo_like (fun _ _ h => ih hr h) _ _ ?_ h
    cases most with
    | none => exact .inr ⟨le_rfl, le_rfl⟩
    | some m => exact .inl rfl
  | boundary =>
    have hat := atBoundary_like hr h
    cases hc : Cursor.atBoundary c <;> simp [run, hc, hat ▸ hc, h]
  | noBoundary =>
    have hat := atBoundary_like hr h
    cases hc : Cursor.atBoundary c <;> simp [run, hc, hat ▸ hc, h]
  | group _ _ _ | ahead _ _ | notAhead _ _ | start | finish => simp [stops] at hr

theorem run_nil_like (hr : stops edges tail.head? r = true) (h : Cursor.Like edges tail c d)
    (hc : run r c = []) : run r d = [] := by
  have hways := run_like hr h
  rw [hc] at hways
  exact List.forall₂_nil_left_iff.mp hways

theorem head_like (hr : stops edges tail.head? r = true) (h : Cursor.Like edges tail c d)
    (hc : (run r c).head? = some e) :
    ∃ e', (run r d).head? = some e' ∧ Cursor.Like edges tail e e' := by
  have hways := run_like hr h
  obtain ⟨l, hl⟩ := List.head?_eq_some_iff.mp hc
  rw [hl, List.forall₂_cons_left_iff] at hways
  obtain ⟨e', l', he, -, hl'⟩ := hways
  exact ⟨e', by rw [hl', List.head?_cons], he⟩

end

theorem replaceFrom_congr {edges : Bool} (hr : stops edges none r = true) {before' : JSString}
    (h : edges = true → before.head?.any isWord = before'.head?.any isWord) (skip : ℕ)
    (t : JSString) : replaceFrom r text skip before t = replaceFrom r text skip before' t := by
  induction t generalizing skip before before' with
  | nil =>
    have hrun : run r ⟨before, [], []⟩ = [] ↔ run r ⟨before', [], []⟩ = [] := by
      constructor
      · exact @run_nil_like _ _ edges [] _ hr ⟨rfl, h⟩
      · exact @run_nil_like _ _ edges [] _ hr ⟨rfl, fun hedges => (h hedges).symm⟩
    simp only [replaceFrom, ne_eq, hrun]
  | cons u t ih =>
    have hnext : ∀ skip, replaceFrom r text skip (u :: before) t =
        replaceFrom r text skip (u :: before') t := fun skip =>
      ih (show edges = true → (u :: before).head?.any isWord = (u :: before').head?.any isWord from
        fun _ => rfl) skip
    have hlike : Cursor.Like edges [] ⟨before, u :: t, []⟩ ⟨before', u :: t, []⟩ :=
      ⟨(List.append_nil _).symm, h⟩
    rw [replaceFrom, replaceFrom, hnext]
    cases hc : (run r ⟨before, u :: t, []⟩).head? with
    | none =>
      rw [run_nil_like hr hlike (List.head?_eq_none_iff.mp hc)]
      simp only [List.head?_nil, hnext]
    | some e =>
      obtain ⟨e', he', hee⟩ := head_like hr hlike hc
      have hrest : e'.rest = e.rest := by simpa using hee.rest
      simp only [he', hrest, hnext]

theorem replaceFrom_append_cons {edges : Bool} {u : CodeUnit} (hr : stops edges (some u) r = true)
    (hc : Consumes r) (a t : JSString) : replaceFrom r text 0 before (a ++ u :: t) =
      replaceFrom r text 0 before a ++ u :: replaceFrom r text 0 (u :: (a.reverse ++ before)) t := by
  induction hn : a.length using Nat.strong_induction_on generalizing before a with
  | h n ih =>
    have hlike : Cursor.Like edges (u :: t) ⟨before, a, []⟩ ⟨before, a ++ u :: t, []⟩ :=
      ⟨rfl, fun _ => rfl⟩
    cases hrun : (run r ⟨before, a, []⟩).head? with
    | none =>
      have hnil : run r ⟨before, a, []⟩ = [] := List.head?_eq_none_iff.mp hrun
      have hmiss := run_nil_like hr hlike hnil
      cases a with
      | nil => rw [List.nil_append, replaceFrom_miss hmiss, replaceFrom_nil hnil]; rfl
      | cons y a =>
        rw [List.cons_append] at hmiss
        rw [List.cons_append, replaceFrom_miss hmiss, replaceFrom_miss hnil,
          ih a.length (by simp [← hn]) a rfl]
        simp
    | some e =>
      obtain ⟨e', he', hee⟩ := head_like hr hlike hrun
      obtain ⟨m, hm, ha⟩ := hc _ e (List.mem_of_head? hrun)
      obtain rfl : a = m ++ e.rest := ha
      have hlen : e.rest.length < n := by
        have := List.length_pos_iff.mpr hm
        simp only [List.length_append] at hn
        omega
      rw [List.append_assoc] at he' ⊢
      rw [replaceFrom_hit hm he' hee.rest, replaceFrom_hit hm hrun rfl, ih _ hlen e.rest rfl]
      simp

end Ecma.Regex
