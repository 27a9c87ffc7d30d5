import Spazito.ScriptSections

set_option autoImplicit false

/-!
# Sections as acts on an abstract state

Where each locked section does one act on the protected part, a run is the sequence of these acts in
the order of the lock.
-/
namespace Script

variable {S : Signature} {ε α ι D V A : Type}

/-- An act of one thread, and the state it found. -/
structure Turn (ι V A : Type) where
  tid : ι
  entry : V
  act : A

section

variable (apply : A → V → V)

def Linked : V → List (Turn ι V A) → V → Prop
  | v, [], v' => v' = v
  | v, t :: ts, v' => t.entry = v ∧ Linked (apply t.act v) ts v'

structure Section.Does (s : Section S ε α ι V) (t : Turn ι V A) : Prop where
  tid : t.tid = s.tid
  entry : t.entry = s.entry
  exit : s.exit = apply t.act s.entry

variable {apply} {v v' : V} {ts us : List (Turn ι V A)}

theorem linked_append : Linked apply v (ts ++ us) v' ↔
    ∃ w, Linked apply v ts w ∧ Linked apply w us v' := by
  induction ts generalizing v with
  | nil => simp [Linked]
  | cons t ts ih => simp [Linked, ih, and_assoc]

theorem map_tid {ss : List (Section S ε α ι V)} (h : List.Forall₂ (Section.Does apply) ss ts) :
    ss.map (·.tid) = ts.map (·.tid) := by
  induction h with
  | nil => rfl
  | cons ht _ ih => rw [List.map_cons, List.map_cons, ih, ht.tid]

theorem Chain.linked {E : Effect S ι D} {good : D → Prop} {view : D → V}
    {ss : List (Section S ε α ι V)} (h : Chain E good view v ss v')
    (hts : List.Forall₂ (Section.Does apply) ss ts) : Linked apply v ts v' := by
  induction h generalizing ts with
  | nil =>
    cases hts
    rfl
  | @snoc ss s front closed ih =>
    have hfront := List.forall₂_take ss.length hts
    have hlast := List.forall₂_drop ss.length hts
    rw [List.take_left] at hfront
    rw [List.drop_left] at hlast
    cases hdrop : ts.drop ss.length with
    | nil =>
      rw [hdrop] at hlast
      cases hlast
    | cons t rest =>
      rw [hdrop] at hlast
      cases hlast with
      | cons ht hrest =>
        cases hrest
        rw [← List.take_append_drop ss.length ts, hdrop]
        exact linked_append.mpr ⟨s.entry, ih hfront, ht.entry, ht.exit⟩

variable [DecidableEq ι]

def ownTurns (i : ι) (ts : List (Turn ι V A)) : List (Turn ι V A) := ts.filter fun t => t.tid = i

/-- The acts of the threads, each told by itself, are one sequence of acts. -/
theorem exists_turns {ss : List (Section S ε α ι V)} (f : ι → List (Turn ι V A))
    (hf : ∀ i, List.Forall₂ (Section.Does apply) (mine i ss) (f i)) :
    ∃ ts, List.Forall₂ (Section.Does apply) ss ts ∧ ∀ i, ownTurns i ts = f i := by
  induction ss generalizing f with
  | nil =>
    exact ⟨[], .nil, fun i => (List.forall₂_nil_left_iff.mp (hf i)).symm⟩
  | cons s ss ih =>
    have hhead : mine s.tid (s :: ss) = s :: mine s.tid ss := by simp [mine]
    have hother : ∀ i ≠ s.tid, mine i (s :: ss) = mine i ss := fun i hi => by
      simp [mine, Ne.symm hi]
    have hs := hf s.tid
    rw [hhead] at hs
    cases hfs : f s.tid with
    | nil =>
      rw [hfs] at hs
      cases hs
    | cons t rest =>
      rw [hfs] at hs
      cases hs with
      | cons ht hrest =>
        obtain ⟨ts, hts, hown⟩ := ih (Function.update f s.tid rest) fun i => by
          by_cases hi : i = s.tid
          · subst hi
            simpa using hrest
          · rw [Function.update_of_ne hi, ← hother i hi]
            exact hf i
        refine ⟨t :: ts, .cons ht hts, fun i => ?_⟩
        by_cases hi : i = s.tid
        · subst hi
          have := hown s.tid
          rw [Function.update_self] at this
          simpa [ownTurns, ht.tid, hfs] using this
        · have := hown i
          rw [Function.update_of_ne hi] at this
          simpa [ownTurns, ht.tid, Ne.symm hi] using this

end
end Script
