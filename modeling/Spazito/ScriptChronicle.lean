import Spazito.ScriptGuards

set_option autoImplicit false

/-!
# The history of a run

The events of a run, each with the changes that it made. A history grows with its run: that of an
earlier state is the beginning of that of a later one.
-/
namespace Script

variable {S : Signature} {ε α ι D C : Type}

def logOf (h : List (Event S ι × List C)) : List (ι × C) :=
  h.flatMap fun m => m.2.map fun c => (m.1.tid, c)

theorem logOf_append (h h' : List (Event S ι × List C)) : logOf (h ++ h') = logOf h ++ logOf h' :=
  List.flatMap_append ..

theorem logOf_concat (h : List (Event S ι × List C)) (x : Event S ι) (made : List C) :
    logOf (h ++ [(x, made)]) = logOf h ++ made.map fun c => (x.tid, c) := by
  simp [logOf]

theorem mem_logOf {h : List (Event S ι × List C)} {i : ι} {c : C} :
    (i, c) ∈ logOf h ↔ ∃ x made, (x, made) ∈ h ∧ x.tid = i ∧ c ∈ made := by
  constructor
  · intro hmem
    obtain ⟨⟨x, made⟩, hx, hc⟩ := List.mem_flatMap.mp hmem
    obtain ⟨c', hc', hpair⟩ := List.mem_map.mp hc
    cases hpair
    exact ⟨x, made, hx, rfl, hc'⟩
  · rintro ⟨x, made, hx, rfl, hc⟩
    exact List.mem_flatMap.mpr ⟨(x, made), hx, List.mem_map.mpr ⟨c, hc, rfl⟩⟩

variable [DecidableEq ι]

/-- A run of guarded threads with its history. -/
inductive Guard.Chronicle (G : Guard S ι D C) (Q : ι → Except ε α → List C → Prop)
    (P : ι → Prog S ε α) (d₀ : D) : List (Event S ι × List C) → Pool S ε α ι D → Prop
  | start (watched : G.Watched Q d₀ [] (Pool.start P d₀)) : Chronicle G Q P d₀ [] (Pool.start P d₀)
  | next {h : List (Event S ι × List C)} {p q : Pool S ε α ι D} {x : Event S ι} {made : List C}
      (front : Chronicle G Q P d₀ h p) (move : Pool.Move G.effect p x q)
      (makes : G.Makes x (own x.tid (logOf h)) p.data q.data made)
      (holds : made ≠ [] → p.holder = some x.tid)
      (watched : G.Watched Q d₀ (logOf (h ++ [(x, made)])) q) :
      Chronicle G Q P d₀ (h ++ [(x, made)]) q

namespace Guard

variable {G : Guard S ι D C} {Q : ι → Except ε α → List C → Prop} {P : ι → Prog S ε α} {d₀ : D}
  {h front rest : List (Event S ι × List C)} {p q : Pool S ε α ι D} {x : Event S ι} {made : List C}

theorem Chronicle.watched (hh : G.Chronicle Q P d₀ h p) : G.Watched Q d₀ (logOf h) p := by
  cases hh with
  | start watched => exact watched
  | next _ _ _ _ watched => exact watched

theorem Chronicle.course (hh : G.Chronicle Q P d₀ h p) :
    Pool.Course G.effect (Pool.start P d₀) (h.map Prod.fst) p := by
  induction hh with
  | start _ => exact .refl
  | next _ move _ _ _ ih =>
    rw [List.map_append]
    exact ih.next move

theorem Chronicle.exists_next (hh : G.Chronicle Q P d₀ h p) (move : Pool.Move G.effect p x q) :
    ∃ made, G.Chronicle Q P d₀ (h ++ [(x, made)]) q := by
  obtain ⟨made, hwatched, hmakes, hholds⟩ := hh.watched.move move
  rw [← logOf_concat] at hwatched
  exact ⟨made, .next hh move hmakes hholds hwatched⟩

theorem Chronicle.extend (hh : G.Chronicle Q P d₀ h p) {t : List (Event S ι)}
    (hrun : Pool.Course G.effect p t q) :
    ∃ more, more.map Prod.fst = t ∧ G.Chronicle Q P d₀ (h ++ more) q := by
  induction hrun with
  | refl => exact ⟨[], rfl, by rwa [List.append_nil]⟩
  | @next _ _ _ x _ move ih =>
    obtain ⟨more, rfl, hmore⟩ := ih
    obtain ⟨made, hmade⟩ := hmore.exists_next move
    exact ⟨more ++ [(x, made)], by simp, by rwa [← List.append_assoc]⟩

/-- **The log rule.** -/
theorem exists_chronicle (hP : ∀ i, (P i).Obeys G i (Q i) [] none) (hd : G.inv d₀)
    {t : List (Event S ι)} (hrun : Pool.Course G.effect (Pool.start P d₀) t p) :
    ∃ h, h.map Prod.fst = t ∧ G.Chronicle Q P d₀ h p := by
  have hstart : G.Watched Q d₀ [] (Pool.start P d₀) :=
    ⟨hd, fun i => by simpa [Pool.start, own] using hP i, .nil⟩
  exact (Chronicle.start hstart).extend hrun

theorem Chronicle.moment (hh : G.Chronicle Q P d₀ (front ++ (x, made) :: rest) p) :
    ∃ q r, G.Chronicle Q P d₀ front q ∧ Pool.Move G.effect q x r ∧
      G.Makes x (own x.tid (logOf front)) q.data r.data made ∧
      G.Chronicle Q P d₀ (front ++ [(x, made)]) r ∧ Pool.Runs G.effect r p := by
  generalize hall : front ++ (x, made) :: rest = h at hh
  induction hh generalizing rest with
  | start _ => cases front <;> cases hall
  | @next h p q y made' hfront move makes holds watched ih =>
    rcases List.eq_nil_or_concat rest with rfl | ⟨rest, last, rfl⟩
    · obtain ⟨rfl, hlast⟩ := List.append_inj' hall rfl
      cases hlast
      exact ⟨p, q, hfront, move, makes, .next hfront move makes holds watched, .refl q⟩
    · rw [List.concat_eq_append, ← List.cons_append, ← List.append_assoc] at hall
      obtain ⟨m, r, hm, hmove, hmakes, hr, hrun⟩ := ih (List.append_inj' hall rfl).1
      exact ⟨m, r, hm, hmove, hmakes, hr, .next hrun move.step⟩

/-- The history of an earlier moment is its beginning. -/
theorem Chronicle.upTo (hh : G.Chronicle Q P d₀ h p) (hfront : front <+: h) :
    ∃ q, G.Chronicle Q P d₀ front q ∧ Pool.Runs G.effect q p := by
  obtain ⟨rest, rfl⟩ := hfront
  cases rest with
  | nil =>
    rw [List.append_nil] at hh
    exact ⟨p, hh, .refl p⟩
  | cons m rest =>
    obtain ⟨q, r, hq, move, -, -, hrun⟩ := hh.moment
    exact ⟨q, hq, .trans (.next (.refl q) move.step) hrun⟩

end Guard
end Script
