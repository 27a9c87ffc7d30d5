import Spazito.EcmaText

set_option autoImplicit false

/-!
# Regular expressions

A pattern run at a cursor yields every way to match, the preferred way first: this is backtracking,
with greedy repetition. Only groups whose text is read are marked as groups, and none of these
stands inside a repetition.
-/
namespace Ecma

/-- A position in a string: what lies before it, nearest first, what lies after it, and the text of
the groups matched so far. -/
structure Cursor where
  before : JSString
  rest : JSString
  groups : List (ℕ × JSString)

inductive Regex
  | empty
  | unit (p : CodeUnit → Bool)
  | seq (r s : Regex)
  | alt (r s : Regex)
  | rep (least : ℕ) (most : Option ℕ) (r : Regex)
  | group (i : ℕ) (r : Regex)
  | ahead (r : Regex)
  | notAhead (r : Regex)
  | start
  | finish
  | boundary
  | noBoundary

namespace Regex

def isWord (u : CodeUnit) : Bool := isDigit u || isUpper u || isLower u || u == 95

def Cursor.atBoundary (c : Cursor) : Bool := c.before.head?.any isWord != c.rest.head?.any isWord

def times (step : Cursor → List Cursor) : ℕ → Cursor → List Cursor
  | 0, c => [c]
  | n + 1, c => (step c).flatMap (times step n)

/-- Up to `n` further rounds, as many as possible first; a round that matches nothing is refused. -/
def upTo (step : Cursor → List Cursor) : ℕ → Cursor → List Cursor
  | 0, c => [c]
  | n + 1, c =>
    ((step c).filter fun d => decide (d.rest.length < c.rest.length)).flatMap (upTo step n) ++ [c]

/-- How many rounds may follow the required ones; without a bound, no more than there are units. -/
def further (least : ℕ) (most : Option ℕ) (c : Cursor) : ℕ :=
  match most with
  | some m => m - least
  | none => c.rest.length

def run : Regex → Cursor → List Cursor
  | empty, c => [c]
  | unit p, c =>
    match c.rest with
    | [] => []
    | u :: s => if p u then [⟨u :: c.before, s, c.groups⟩] else []
  | seq r s, c => (run r c).flatMap (run s)
  | alt r s, c => run r c ++ run s c
  | rep least most r, c =>
    (times (run r) least c).flatMap fun d => upTo (run r) (further least most d) d
  | group i r, c => (run r c).map fun d =>
      { d with groups := (i, c.rest.take (c.rest.length - d.rest.length)) :: d.groups }
  | ahead r, c =>
    match run r c with
    | [] => []
    | d :: _ => [{ c with groups := d.groups }]
  | notAhead r, c => if run r c = [] then [c] else []
  | start, c => if c.before = [] then [c] else []
  | finish, c => if c.rest = [] then [c] else []
  | boundary, c => if Cursor.atBoundary c then [c] else []
  | noBoundary, c => if Cursor.atBoundary c then [] else [c]

def word : JSString → Regex
  | [] => empty
  | u :: s => seq (unit (· == u)) (word s)

/-! ## Searching and replacing -/

def search (r : Regex) (before : JSString) : JSString → Option (Cursor × Cursor)
  | [] => ((run r ⟨before, [], []⟩).head?).map fun e => (⟨before, [], []⟩, e)
  | u :: s =>
    match (run r ⟨before, u :: s, []⟩).head? with
    | some e => some (⟨before, u :: s, []⟩, e)
    | none => search r (u :: before) s

/-- `s.match(r)`. -/
def exec (r : Regex) (s : JSString) : Option (Cursor × Cursor) := search r [] s

def test (r : Regex) (s : JSString) : Bool := (exec r s).isSome

def Cursor.group (c : Cursor) (i : ℕ) : JSString := (c.groups.lookup i).getD []

/-- `skip` units of the match just replaced are still to be passed over. -/
def replaceFrom (r : Regex) (text : JSString) (skip : ℕ) (before : JSString) : JSString → JSString
  | [] => if skip = 0 ∧ run r ⟨before, [], []⟩ ≠ [] then text else []
  | u :: s =>
    if 0 < skip then replaceFrom r text (skip - 1) (u :: before) s
    else match (run r ⟨before, u :: s, []⟩).head? with
      | none => u :: replaceFrom r text 0 (u :: before) s
      | some e =>
        if e.rest.length = s.length + 1 then text ++ u :: replaceFrom r text 0 (u :: before) s
        else text ++ replaceFrom r text (s.length - e.rest.length) (u :: before) s

/-- `s.replace(r, text)` with the flag g, for a text without a dollar sign. -/
def replaceAll (r : Regex) (text s : JSString) : JSString := replaceFrom r text 0 [] s

/-- Character classes under the flag i; only ASCII letters fold onto ASCII letters. -/
def foldCase (p : CodeUnit → Bool) (u : CodeUnit) : Bool :=
  p u || (isUpper u && p (u + 32)) || (isLower u && p (u - 32))

example : replaceAll (seq noBoundary (ahead (seq (rep 1 none (rep 3 (some 3) (unit isDigit)))
    (notAhead (unit isDigit))))) (js ",") (js "-1234567") = js "-1,234,567" := by decide

/-! ## The ways to match -/

variable {p : CodeUnit → Bool} {r s : Regex} {c e : Cursor}

theorem mem_run_unit : e ∈ run (unit p) c ↔
    ∃ u t, c.rest = u :: t ∧ p u = true ∧ e = ⟨u :: c.before, t, c.groups⟩ := by
  cases h : c.rest with
  | nil => simp [run, h]
  | cons u t => by_cases hu : p u = true <;> simp [run, h, hu]

theorem mem_run_seq : e ∈ run (seq r s) c ↔ ∃ d ∈ run r c, e ∈ run s d := by
  simp [run, List.mem_flatMap]

theorem mem_run_group (i : ℕ) : e ∈ run (group i r) c ↔ ∃ d ∈ run r c,
    e = ⟨d.before, d.rest, (i, c.rest.take (c.rest.length - d.rest.length)) :: d.groups⟩ := by
  simp [run, List.mem_map, eq_comm]

theorem mem_run_finish : e ∈ run finish c ↔ c.rest = [] ∧ e = c := by
  by_cases h : c.rest = [] <;> simp [run, h]

theorem mem_run_start : e ∈ run start c ↔ c.before = [] ∧ e = c := by
  by_cases h : c.before = [] <;> simp [run, h]

def Cursor.Passes (c : Cursor) (w : JSString) (e : Cursor) : Prop :=
  c.rest = w ++ e.rest ∧ e.before = w.reverse ++ c.before ∧ e.groups = c.groups

theorem Cursor.passes_nil : Cursor.Passes c [] e ↔ e = c := by
  obtain ⟨b, t, g⟩ := c
  obtain ⟨b', t', g'⟩ := e
  simp only [Cursor.Passes, List.nil_append, List.reverse_nil, Cursor.mk.injEq]
  constructor
  · rintro ⟨h1, h2, h3⟩
    exact ⟨h2, h1.symm, h3⟩
  · rintro ⟨h1, h2, h3⟩
    exact ⟨h2.symm, h1, h3⟩

theorem Cursor.passes_cons (u : CodeUnit) (w : JSString) : Cursor.Passes c (u :: w) e ↔
    ∃ t, c.rest = u :: t ∧ Cursor.Passes ⟨u :: c.before, t, c.groups⟩ w e := by
  simp only [Cursor.Passes, List.cons_append, List.reverse_cons, List.append_assoc]
  constructor
  · rintro ⟨h1, h2, h3⟩
    exact ⟨_, h1, rfl, by simpa using h2, h3⟩
  · rintro ⟨t, h0, h1, h2, h3⟩
    exact ⟨by rw [h0, h1], by simpa using h2, h3⟩

theorem Cursor.Passes.trans {d : Cursor} {v w : JSString} (h : Cursor.Passes c v d)
    (h' : Cursor.Passes d w e) : Cursor.Passes c (v ++ w) e := by
  obtain ⟨h1, h2, h3⟩ := h
  obtain ⟨h1', h2', h3'⟩ := h'
  exact ⟨by rw [h1, h1', List.append_assoc], by rw [h2', h2]; simp, by rw [h3', h3]⟩

theorem Cursor.Passes.split {v w : JSString} (h : Cursor.Passes c (v ++ w) e) :
    ∃ d, Cursor.Passes c v d ∧ Cursor.Passes d w e := by
  obtain ⟨h1, h2, h3⟩ := h
  refine ⟨⟨v.reverse ++ c.before, w ++ e.rest, c.groups⟩, ⟨?_, rfl, rfl⟩, rfl, ?_, h3⟩
  · rw [h1, List.append_assoc]
  · rw [h2]; simp

theorem mem_run_word (w : JSString) : e ∈ run (word w) c ↔ Cursor.Passes c w e := by
  induction w generalizing c with
  | nil => simp [word, run, Cursor.passes_nil]
  | cons u w ih =>
    simp only [word, mem_run_seq, mem_run_unit, ih, Cursor.passes_cons]
    constructor
    · rintro ⟨d, ⟨v, t, hc, hv, rfl⟩, hpass⟩
      obtain rfl : v = u := by simpa using hv
      exact ⟨t, hc, hpass⟩
    · rintro ⟨t, hc, hpass⟩
      exact ⟨_, ⟨u, t, hc, by simp, rfl⟩, hpass⟩

/-! ## The language of a pattern

What a pattern without conditions on its surroundings matches. -/

/-- The pattern matches, at any cursor, exactly the texts of `L`. -/
def Denotes (r : Regex) (L : JSString → Prop) : Prop :=
  ∀ c e, e ∈ run r c ↔ ∃ w, L w ∧ Cursor.Passes c w e

theorem denotes_unit : Denotes (unit p) fun w => ∃ u, p u = true ∧ w = [u] := by
  intro c e
  rw [mem_run_unit]
  constructor
  · rintro ⟨u, t, hc, hu, rfl⟩
    exact ⟨[u], ⟨u, hu, rfl⟩, hc, rfl, rfl⟩
  · rintro ⟨w, ⟨u, hu, rfl⟩, hpass⟩
    obtain ⟨t, hc, hpass⟩ := (Cursor.passes_cons u []).mp hpass
    exact ⟨u, t, hc, hu, Cursor.passes_nil.mp hpass⟩

theorem denotes_empty : Denotes empty fun w => w = [] := by
  intro c e
  simp [run, Cursor.passes_nil]

theorem denotes_word (v : JSString) : Denotes (word v) fun w => w = v := by
  intro c e
  simp [mem_run_word]

variable {L M : JSString → Prop}

theorem mem_times (hr : Denotes r L) (n : ℕ) : e ∈ times (run r) n c ↔
    ∃ ws : List JSString, ws.length = n ∧ (∀ w ∈ ws, L w) ∧ Cursor.Passes c ws.flatten e := by
  induction n generalizing c with
  | zero => simp [times, List.length_eq_zero_iff, Cursor.passes_nil]
  | succ n ih =>
    simp only [times, List.mem_flatMap, hr c, ih]
    constructor
    · rintro ⟨d, ⟨w, hw, hcd⟩, ws, hlen, hws, hde⟩
      exact ⟨w :: ws, by simp [hlen], List.forall_mem_cons.mpr ⟨hw, hws⟩, hcd.trans hde⟩
    · rintro ⟨ws, hlen, hws, hpass⟩
      obtain ⟨w, ws, rfl⟩ := List.exists_cons_of_length_eq_add_one hlen
      obtain ⟨hw, hws⟩ := List.forall_mem_cons.mp hws
      obtain ⟨d, hcd, hde⟩ := Cursor.Passes.split hpass
      exact ⟨d, ⟨w, hw, hcd⟩, ws, by simpa using hlen, hws, hde⟩

theorem mem_upTo (hr : Denotes r L) (hL : ¬ L []) (n : ℕ) : e ∈ upTo (run r) n c ↔
    ∃ ws : List JSString, ws.length ≤ n ∧ (∀ w ∈ ws, L w) ∧ Cursor.Passes c ws.flatten e := by
  induction n generalizing c with
  | zero => simp [upTo, Cursor.passes_nil]
  | succ n ih =>
    simp only [upTo, List.mem_append, List.mem_flatMap, List.mem_filter, decide_eq_true_eq, hr c, ih,
      List.mem_singleton]
    constructor
    · rintro (⟨d, ⟨⟨w, hw, hcd⟩, -⟩, ws, hlen, hws, hde⟩ | rfl)
      · exact ⟨w :: ws, by simp [hlen], List.forall_mem_cons.mpr ⟨hw, hws⟩, hcd.trans hde⟩
      · exact ⟨[], by simp, by simp, Cursor.passes_nil.mpr rfl⟩
    · rintro ⟨ws, hlen, hws, hpass⟩
      cases ws with
      | nil => exact .inr (Cursor.passes_nil.mp hpass)
      | cons w ws =>
        obtain ⟨hw, hws⟩ := List.forall_mem_cons.mp hws
        obtain ⟨d, hcd, hde⟩ := Cursor.Passes.split hpass
        have hne : w ≠ [] := by rintro rfl; exact hL hw
        have hshort : d.rest.length < c.rest.length := by
          rw [hcd.1, List.length_append]
          have := List.length_pos_iff.mpr hne
          omega
        exact .inl ⟨d, ⟨⟨w, hw, hcd⟩, hshort⟩, ws, by simpa using hlen, hws, hde⟩

theorem length_le_flatten (ws : List JSString) (h : ∀ w ∈ ws, w ≠ []) :
    ws.length ≤ ws.flatten.length := by
  have hsum : (ws.map List.length).length ≤ (ws.map List.length).sum := by
    refine List.length_le_sum_of_one_le _ fun n hn => ?_
    obtain ⟨w, hw, rfl⟩ := List.mem_map.mp hn
    exact List.length_pos_iff.mpr (h w hw)
  rwa [List.length_map, ← List.length_flatten] at hsum

theorem Denotes.rep (hr : Denotes r L) (hL : ¬ L []) (least : ℕ) (most : Option ℕ)
    (hm : ∀ m ∈ most, least ≤ m) : Denotes (.rep least most r) fun w => ∃ ws : List JSString,
      least ≤ ws.length ∧ (∀ m ∈ most, ws.length ≤ m) ∧ (∀ x ∈ ws, L x) ∧ w = ws.flatten := by
  intro c e
  have hrep : e ∈ run (.rep least most r) c ↔ ∃ d ∈ times (run r) least c,
      e ∈ upTo (run r) (further least most d) d :=
    List.mem_flatMap
  simp only [hrep, mem_times hr, mem_upTo hr hL]
  constructor
  · rintro ⟨d, ⟨vs, hvs, hv, hcd⟩, ws, hmost, hw, hde⟩
    refine ⟨_, ⟨vs ++ ws, by simp [hvs], ?_, ?_, rfl⟩, by simpa using hcd.trans hde⟩
    · intro m hmem
      have := hm m hmem
      obtain rfl : most = some m := hmem
      simp only [further] at hmost
      simp only [List.length_append]
      omega
    · intro x hx
      exact (List.mem_append.mp hx).elim (hv x) (hw x)
  · rintro ⟨_, ⟨ws, hlen, hmost, hws, rfl⟩, hpass⟩
    rw [← List.take_append_drop least ws, List.flatten_append] at hpass
    obtain ⟨d, hcd, hde⟩ := Cursor.Passes.split hpass
    refine ⟨d, ⟨ws.take least, by simp [hlen], fun x hx => hws x (List.mem_of_mem_take hx), hcd⟩,
      ws.drop least, ?_, fun x hx => hws x (List.mem_of_mem_drop hx), hde⟩
    cases most with
    | none =>
      have hdrop := length_le_flatten (ws.drop least) fun x hx => by
        rintro rfl
        exact hL (hws [] (List.mem_of_mem_drop hx))
      rw [further, hde.1, List.length_append]
      omega
    | some m =>
      have := hmost m rfl
      simp only [further, List.length_drop]
      omega

theorem denotes_rep_unit (least : ℕ) (most : Option ℕ) (hm : ∀ m ∈ most, least ≤ m) :
    Denotes (.rep least most (unit p)) fun w =>
      least ≤ w.length ∧ (∀ m ∈ most, w.length ≤ m) ∧ ∀ u ∈ w, p u = true := by
  intro c e
  rw [denotes_unit.rep (by simp) least most hm c e]
  constructor
  · rintro ⟨_, ⟨ws, hleast, hmost, hws, rfl⟩, hpass⟩
    have hlen : ws.flatten.length = ws.length := by
      rw [List.length_flatten, List.map_congr_left (g := fun _ => 1) fun w hw => ?_]
      · simp
      · obtain ⟨u, -, rfl⟩ := hws w hw
        rfl
    refine ⟨ws.flatten, ⟨by rwa [hlen], by rwa [hlen], fun u hu => ?_⟩, hpass⟩
    obtain ⟨w, hw, hu⟩ := List.mem_flatten.mp hu
    obtain ⟨v, hv, rfl⟩ := hws w hw
    rwa [List.mem_singleton.mp hu]
  · rintro ⟨w, ⟨hleast, hmost, hw⟩, hpass⟩
    refine ⟨w, ⟨w.map fun u => [u], by simpa using hleast, by simpa using hmost, ?_,
      (List.flatMap_singleton' w).symm⟩, hpass⟩
    intro x hx
    obtain ⟨u, hu, rfl⟩ := List.mem_map.mp hx
    exact ⟨u, hw u hu, rfl⟩

theorem mem_run_rep_unit (least : ℕ) (most : Option ℕ) (hm : ∀ m ∈ most, least ≤ m) :
    e ∈ run (.rep least most (unit p)) c ↔
      ∃ w, least ≤ w.length ∧ (∀ m ∈ most, w.length ≤ m) ∧ (∀ u ∈ w, p u = true) ∧
        Cursor.Passes c w e := by
  rw [denotes_rep_unit least most hm c e]
  simp only [and_assoc]

theorem Denotes.seq (hr : Denotes r L) (hs : Denotes s M) :
    Denotes (.seq r s) fun w => ∃ x y, w = x ++ y ∧ L x ∧ M y := by
  intro c e
  rw [mem_run_seq]
  constructor
  · rintro ⟨d, hd, he⟩
    obtain ⟨x, hx, hcd⟩ := (hr c d).mp hd
    obtain ⟨y, hy, hde⟩ := (hs d e).mp he
    exact ⟨x ++ y, ⟨x, y, rfl, hx, hy⟩, hcd.trans hde⟩
  · rintro ⟨w, ⟨x, y, rfl, hx, hy⟩, hpass⟩
    obtain ⟨d, hcd, hde⟩ := hpass.split
    exact ⟨d, (hr c d).mpr ⟨x, hx, hcd⟩, (hs d e).mpr ⟨y, hy, hde⟩⟩

theorem Denotes.alt (hr : Denotes r L) (hs : Denotes s M) :
    Denotes (.alt r s) fun w => L w ∨ M w := by
  intro c e
  rw [run, List.mem_append, hr c e, hs c e]
  constructor
  · rintro (⟨w, hw, hpass⟩ | ⟨w, hw, hpass⟩)
    · exact ⟨w, .inl hw, hpass⟩
    · exact ⟨w, .inr hw, hpass⟩
  · rintro ⟨w, hw | hw, hpass⟩
    · exact .inl ⟨w, hw, hpass⟩
    · exact .inr ⟨w, hw, hpass⟩

theorem Denotes.opt (hr : Denotes r L) : Denotes (.rep 0 (some 1) r) fun w => w = [] ∨ L w := by
  intro c e
  have hrun : e ∈ run (.rep 0 (some 1) r) c ↔
      (e ∈ run r c ∧ e.rest.length < c.rest.length) ∨ e = c := by
    simp [run, times, further, upTo]
  rw [hrun, hr c e]
  constructor
  · rintro (⟨⟨w, hw, hpass⟩, -⟩ | rfl)
    · exact ⟨w, .inr hw, hpass⟩
    · exact ⟨[], .inl rfl, Cursor.passes_nil.mpr rfl⟩
  · rintro ⟨w, rfl | hw, hpass⟩
    · exact .inr (Cursor.passes_nil.mp hpass)
    · cases w with
      | nil => exact .inr (Cursor.passes_nil.mp hpass)
      | cons u w =>
        refine .inl ⟨⟨u :: w, hw, hpass⟩, ?_⟩
        rw [hpass.1, List.length_append, List.length_cons]
        omega

/-- The pattern matches from a cursor on exactly if the rest of the text is in `L`. -/
def Finishes (r : Regex) (L : JSString → Prop) : Prop := ∀ c, run r c ≠ [] ↔ L c.rest

theorem finishes_finish : Finishes finish fun t => t = [] := by
  intro c
  by_cases h : c.rest = [] <;> simp [run, h]

theorem finishes_notAhead_unit : Finishes (notAhead (unit p)) fun t => ∀ u ∈ t.head?, p u = false := by
  intro c
  cases hc : c.rest with
  | nil => simp [run, hc]
  | cons u t => by_cases hu : p u = true <;> simp [run, hc, hu]

theorem Finishes.seq (hr : Denotes r L) (hs : Finishes s M) :
    Finishes (.seq r s) fun t => ∃ x y, t = x ++ y ∧ L x ∧ M y := by
  intro c
  constructor
  · intro h
    obtain ⟨e, he⟩ := List.exists_mem_of_ne_nil _ h
    obtain ⟨d, hd, he⟩ := mem_run_seq.mp he
    obtain ⟨x, hx, hpass⟩ := (hr c d).mp hd
    exact ⟨x, d.rest, hpass.1, hx, (hs d).mp (List.ne_nil_of_mem he)⟩
  · rintro ⟨x, y, hc, hx, hy⟩
    have hpass : Cursor.Passes c x ⟨x.reverse ++ c.before, y, c.groups⟩ := ⟨hc, rfl, rfl⟩
    obtain ⟨e, he⟩ := List.exists_mem_of_ne_nil _ ((hs ⟨_, y, _⟩).mpr hy)
    exact List.ne_nil_of_mem (mem_run_seq.mpr ⟨_, (hr c _).mpr ⟨x, hx, hpass⟩, he⟩)

/-! ## Where a search ends -/

theorem search_append (v w before : JSString) (e : Cursor)
    (hno : ∀ v₁ v₂, v = v₁ ++ v₂ → v₂ ≠ [] → run r ⟨v₁.reverse ++ before, v₂ ++ w, []⟩ = [])
    (he : (run r ⟨v.reverse ++ before, w, []⟩).head? = some e) :
    search r before (v ++ w) = some (⟨v.reverse ++ before, w, []⟩, e) := by
  induction v generalizing before with
  | nil =>
    rw [List.reverse_nil, List.nil_append] at he
    cases w with
    | nil => simp [search, he]
    | cons u w => simp [search, he]
  | cons u v ih =>
    have h0 := hno [] (u :: v) rfl (by simp)
    rw [List.reverse_nil, List.nil_append, List.cons_append] at h0
    rw [List.cons_append, search, h0, List.head?_nil]
    have hnext := ih (u :: before)
      (fun v₁ v₂ hv hne => by simpa using hno (u :: v₁) v₂ (by rw [hv, List.cons_append]) hne)
      (by simpa using he)
    simpa using hnext

theorem search_none {before t : JSString} :
    search r before t = none ↔ ∀ v w, t = v ++ w → run r ⟨v.reverse ++ before, w, []⟩ = [] := by
  induction t generalizing before with
  | nil => simp [search]
  | cons u t ih =>
    rw [search]
    constructor
    · intro h v w hvw
      cases hr : (run r ⟨before, u :: t, []⟩).head? with
      | some e => simp [hr] at h
      | none =>
        simp only [hr, ih] at h
        cases v with
        | nil =>
          rw [List.nil_append] at hvw
          rw [← hvw, List.reverse_nil, List.nil_append]
          exact List.head?_eq_none_iff.mp hr
        | cons x v =>
          rw [List.cons_append, List.cons.injEq] at hvw
          obtain ⟨rfl, rfl⟩ := hvw
          simpa using h v w rfl
    · intro h
      have h0 := h [] (u :: t) rfl
      rw [List.reverse_nil, List.nil_append] at h0
      simp only [h0, List.head?_nil, ih]
      intro v w hvw
      simpa using h (u :: v) w (by rw [hvw, List.cons_append])

theorem test_start (t : JSString) : test (seq start r) t = true ↔ run r ⟨[], t, []⟩ ≠ [] := by
  rw [test, exec, Option.isSome_iff_ne_none, not_iff_comm, search_none, not_not]
  constructor
  · intro h v w hvw
    refine List.eq_nil_iff_forall_not_mem.mpr fun e he => ?_
    obtain ⟨d, hd, he⟩ := mem_run_seq.mp he
    obtain ⟨hb, rfl⟩ := mem_run_start.mp hd
    obtain rfl : v = [] := by simpa using hb
    simp [hvw] at h
    simp [h] at he
  · intro h
    have h0 := h [] t rfl
    simpa [run] using h0

theorem replaceAll_unit (t : JSString) : replaceAll (unit p) [] t = t.filter fun u => !p u := by
  suffices h : ∀ before, replaceFrom (unit p) [] 0 before t = t.filter fun u => !p u from h []
  induction t with
  | nil => simp [replaceFrom]
  | cons u t ih =>
    intro before
    by_cases hu : p u = true <;> simp [replaceFrom, run, hu, ih]

end Regex
end Ecma
