import Spazito.ScriptEvents
import Spazito.ScriptSections

set_option autoImplicit false

/-!
# What holds at every instant of a pool

Each thread of a pool obeys a guard: outside the lock it changes nothing, and in a locked section each
write makes one change, of a kind that the thread may make after those it has made before. Then every
state of every run is told by one log of such changes, which grows along the run.
-/
namespace Script

variable {S : Signature} {ε α β ι D C : Type}

/-- The answers that threads can get, what holds of the store at every instant, which operations are
changes, answered so, what a change does, which change a thread may make after its own earlier ones, and
which operations it may use outside the lock, after these changes, and inside. -/
structure Guard (S : Signature) (ι D C : Type) where
  effect : Effect S ι D
  inv : D → Prop
  changes : (o : S.Op) → S.Ret o → Prop
  does : C → D → D → Prop
  permits : ι → List C → C → Prop
  outside : ι → List C → S.Op → Prop
  inside : S.Op → Prop
  idle : ∀ i past o r, outside i past o → ¬ changes o r

def Guard.Changes (G : Guard S ι D C) : Event S ι → Prop
  | .op _ o r => G.changes o r
  | .acquired _ | .timedOut _ | .released _ => False

/-- What one event makes of the store. -/
inductive Guard.Makes (G : Guard S ι D C) (x : Event S ι) (past : List C) (d : D) : D → List C → Prop
  | nothing (still : ¬ G.Changes x) : Makes G x past d d []
  | change {d' : D} {c : C} (writes : G.Changes x) (permitted : G.permits x.tid past c)
      (done : G.does c d d') (sound : G.inv d') : Makes G x past d d' [c]

theorem Guard.Makes.sound {G : Guard S ι D C} {x : Event S ι} {past made : List C} {d d' : D}
    (h : G.Makes x past d d' made) (hd : G.inv d) : G.inv d' := by
  cases h with
  | nothing _ => exact hd
  | change _ _ _ sound => exact sound

theorem Guard.Makes.exists_change {G : Guard S ι D C} {x : Event S ι} {past made : List C} {d d' : D}
    (h : G.Makes x past d d' made) (hx : G.Changes x) :
    ∃ c, made = [c] ∧ G.permits x.tid past c ∧ G.does c d d' := by
  cases h with
  | nothing still => exact absurd hx still
  | @change _ c _ permitted done _ => exact ⟨c, rfl, permitted, done⟩

theorem Guard.Makes.changes {G : Guard S ι D C} {x : Event S ι} {past made : List C} {d d' : D}
    (h : G.Makes x past d d' made) (hmade : made ≠ []) : G.Changes x := by
  cases h with
  | nothing _ => exact absurd rfl hmade
  | change writes _ _ _ => exact writes

namespace Prog

section Obeys

variable (G : Guard S ι D C) (i : ι)

/-- A thread that has made the changes `past`, and holds the lock over the store `d` or not. Outside
the lock nothing is known of the store but the invariant; inside nobody else touches it. -/
def Obeys (Q : Except ε α → List C → Prop) : List C → Option D → Prog S ε α → Prop
  | past, none, ret a => Q (.ok a) past
  | past, none, raise e => Q (.error e) past
  | _, some _, ret _ => False
  | _, some _, raise _ => False
  | past, none, perform (.op o) k => G.outside i past o ∧
      ∀ d r d', G.inv d → G.effect i o d r d' → d' = d ∧ (k r).Obeys Q past none
  | past, some d, perform (.op o) k => G.inside o ∧ ∀ r d', G.effect i o d r d' →
      ∃ made, G.Makes (.op i o r) past d d' made ∧ (k r).Obeys Q (past ++ made) (some d')
  | past, none, perform (.waitLock _) k =>
      (k false).Obeys Q past none ∧ ∀ d, G.inv d → (k true).Obeys Q past (some d)
  | _, some _, perform (.waitLock _) _ => False
  | _, none, perform .releaseLock _ => False
  | past, some _, perform .releaseLock k => (k ()).Obeys Q past none

/-- The body of a section, from the store it finds. -/
def ObeysInside (Q : Except ε α → List C → D → Prop) : List C → D → Prog S ε α → Prop
  | past, d, ret a => Q (.ok a) past d
  | past, d, raise e => Q (.error e) past d
  | past, d, perform (.op o) k => G.inside o ∧ ∀ r d', G.effect i o d r d' →
      ∃ made, G.Makes (.op i o r) past d d' made ∧ (k r).ObeysInside Q (past ++ made) d'
  | _, _, perform (.waitLock _) _ => False
  | _, _, perform .releaseLock _ => False

variable {G i} {p : Prog S ε α} {past : List C} {held : Option D} {d : D}

section Outside

variable {Q : Except ε α → List C → Prop}

theorem Obeys.mono {Q' : Except ε α → List C → Prop} (hp : p.Obeys G i Q past held)
    (hQ : ∀ x past', Q x past' → Q' x past') : p.Obeys G i Q' past held := by
  induction p generalizing past held with
  | ret a => cases held <;> [exact hQ _ _ hp; exact hp]
  | raise e => cases held <;> [exact hQ _ _ hp; exact hp]
  | perform c k ih =>
    cases c with
    | op o =>
      cases held with
      | none => exact ⟨hp.1, fun d r d' hd he => ⟨(hp.2 d r d' hd he).1, ih r (hp.2 d r d' hd he).2⟩⟩
      | some d =>
        refine ⟨hp.1, fun r d' he => ?_⟩
        obtain ⟨made, hmade, hrest⟩ := hp.2 r d' he
        exact ⟨made, hmade, ih r hrest⟩
    | waitLock n =>
      cases held with
      | none => exact ⟨ih false hp.1, fun d hd => ih true (hp.2 d hd)⟩
      | some d => exact hp
    | releaseLock =>
      cases held with
      | none => exact hp
      | some d => exact ih () hp

theorem Obeys.bind {R : Except ε β → List C → Prop} {f : α → Prog S ε β}
    (hp : p.Obeys G i Q past held) (hf : ∀ a past', Q (.ok a) past' → (f a).Obeys G i R past' none)
    (he : ∀ e past', Q (.error e) past' → R (.error e) past') :
    (p.bind f).Obeys G i R past held := by
  induction p generalizing past held with
  | ret a => cases held <;> [exact hf _ _ hp; exact hp.elim]
  | raise e => cases held <;> [exact he _ _ hp; exact hp.elim]
  | perform c k ih =>
    cases c with
    | op o =>
      cases held with
      | none => exact ⟨hp.1, fun d r d' hd ho => ⟨(hp.2 d r d' hd ho).1, ih r (hp.2 d r d' hd ho).2⟩⟩
      | some d =>
        refine ⟨hp.1, fun r d' ho => ?_⟩
        obtain ⟨made, hmade, hrest⟩ := hp.2 r d' ho
        exact ⟨made, hmade, ih r hrest⟩
    | waitLock n =>
      cases held with
      | none => exact ⟨ih false hp.1, fun d hd => ih true (hp.2 d hd)⟩
      | some d => exact hp
    | releaseLock =>
      cases held with
      | none => exact hp
      | some d => exact ih () hp

theorem Obeys.catchWith {g : ε → Prog S ε α} {R : Except ε α → List C → Prop}
    (hp : p.Obeys G i R past held) (hok : ∀ a past', R (.ok a) past' → Q (.ok a) past')
    (hg : ∀ e past', R (.error e) past' → (g e).Obeys G i Q past' none) :
    (p.catchWith g).Obeys G i Q past held := by
  induction p generalizing past held with
  | ret a => cases held <;> [exact hok _ _ hp; exact hp]
  | raise e => cases held <;> [exact hg _ _ hp; exact hp.elim]
  | perform c k ih =>
    cases c with
    | op o =>
      cases held with
      | none => exact ⟨hp.1, fun d r d' hd ho => ⟨(hp.2 d r d' hd ho).1, ih r (hp.2 d r d' hd ho).2⟩⟩
      | some d =>
        refine ⟨hp.1, fun r d' ho => ?_⟩
        obtain ⟨made, hmade, hrest⟩ := hp.2 r d' ho
        exact ⟨made, hmade, ih r hrest⟩
    | waitLock n =>
      cases held with
      | none => exact ⟨ih false hp.1, fun d hd => ih true (hp.2 d hd)⟩
      | some d => exact hp
    | releaseLock =>
      cases held with
      | none => exact hp
      | some d => exact ih () hp

theorem Obeys.extends (hp : p.Obeys G i Q past held) :
    p.Obeys G i (fun x past' => Q x past' ∧ past <+: past') past held := by
  induction p generalizing past held with
  | ret a => cases held <;> [exact ⟨hp, List.prefix_rfl⟩; exact hp]
  | raise e => cases held <;> [exact ⟨hp, List.prefix_rfl⟩; exact hp]
  | perform c k ih =>
    cases c with
    | op o =>
      cases held with
      | none => exact ⟨hp.1, fun d r d' hd he => ⟨(hp.2 d r d' hd he).1, ih r (hp.2 d r d' hd he).2⟩⟩
      | some d =>
        refine ⟨hp.1, fun r d' he => ?_⟩
        obtain ⟨made, hmade, hrest⟩ := hp.2 r d' he
        refine ⟨made, hmade, (ih r hrest).mono fun x past' h => ⟨h.1, ?_⟩⟩
        exact (List.prefix_append _ _).trans h.2
    | waitLock n =>
      cases held with
      | none => exact ⟨ih false hp.1, fun d hd => ih true (hp.2 d hd)⟩
      | some d => exact hp
    | releaseLock =>
      cases held with
      | none => exact hp
      | some d => exact ih () hp

theorem Within.obeys (hp : p.Within fun c => ∃ o, c = .op o ∧ G.outside i past o ∧
    ∀ d r d', G.effect i o d r d' → d' = d) :
    p.Obeys G i (fun _ past' => past' = past) past none := by
  induction p with
  | ret a => rfl
  | raise e => rfl
  | perform c k ih =>
    obtain ⟨⟨o, rfl, hout, hsame⟩, hk⟩ := hp
    exact ⟨hout, fun d r d' _ he => ⟨hsame d r d' he, ih r (hk r)⟩⟩

end Outside

section Inside

variable {Q : Except ε α → List C → D → Prop}

theorem ObeysInside.bind {R : Except ε β → List C → D → Prop} {f : α → Prog S ε β}
    (hp : p.ObeysInside G i Q past d)
    (hf : ∀ a past' d', Q (.ok a) past' d' → (f a).ObeysInside G i R past' d')
    (he : ∀ e past' d', Q (.error e) past' d' → R (.error e) past' d') :
    (p.bind f).ObeysInside G i R past d := by
  induction p generalizing past d with
  | ret a => exact hf _ _ _ hp
  | raise e => exact he _ _ _ hp
  | perform c k ih =>
    cases c with
    | op o =>
      refine ⟨hp.1, fun r d' ho => ?_⟩
      obtain ⟨made, hmade, hrest⟩ := hp.2 r d' ho
      exact ⟨made, hmade, ih r hrest⟩
    | waitLock n => exact hp
    | releaseLock => exact hp

theorem ObeysInside.section (hp : p.ObeysInside G i Q past d) :
    (p.andFinally (perform .releaseLock fun _ => ret ())).Obeys G i
      (fun x past' => ∃ d', Q x past' d') past (some d) := by
  induction p generalizing past d with
  | ret a => exact ⟨d, hp⟩
  | raise e => exact ⟨d, hp⟩
  | perform c k ih =>
    cases c with
    | op o =>
      refine ⟨hp.1, fun r d' ho => ?_⟩
      obtain ⟨made, hmade, hrest⟩ := hp.2 r d' ho
      exact ⟨made, hmade, ih r hrest⟩
    | waitLock n => exact hp.elim
    | releaseLock => exact hp.elim

theorem obeys_locked {n : ℕ} {mutate onBusy : Prog S ε α} {R : Except ε α → List C → Prop}
    (hm : ∀ d, G.inv d → mutate.ObeysInside G i (fun x past' _ => R x past') past d)
    (hb : onBusy.Obeys G i R past none) : (locked n mutate onBusy).Obeys G i R past none :=
  ⟨hb, fun d hd => (hm d hd).section.mono fun _ _ ⟨_, h⟩ => h⟩

end Inside
end Obeys
end Prog

/-! ## The log of a pool -/

section Log

variable [DecidableEq ι]

def own (i : ι) (log : List (ι × C)) : List C := (log.filter fun x => x.1 = i).map (·.2)

theorem own_append (i : ι) (log log' : List (ι × C)) :
    own i (log ++ log') = own i log ++ own i log' := by simp [own]

theorem own_made (i : ι) (made : List C) : own i (made.map fun c => (i, c)) = made := by
  induction made with
  | nil => rfl
  | cons c made ih => simpa [own] using ih

theorem own_made_ne {i j : ι} (h : j ≠ i) (made : List C) : own j (made.map fun c => (i, c)) = [] := by
  simp [own, Ne.symm h]

theorem mem_own {i : ι} {c : C} {log : List (ι × C)} : c ∈ own i log ↔ (i, c) ∈ log := by
  simp [own]

/-- What a thread did before one of its changes is what it did before it in the log. -/
theorem own_split {i : ι} {log : List (ι × C)} {past later : List C} {c : C}
    (h : own i log = past ++ c :: later) :
    ∃ front rest, log = front ++ (i, c) :: rest ∧ own i front = past := by
  induction log generalizing past with
  | nil => cases past <;> cases h
  | cons x log ih =>
    obtain ⟨j, a⟩ := x
    by_cases hj : j = i
    · subst hj
      have hcons : own j ((j, a) :: log) = a :: own j log := by simp [own]
      rw [hcons] at h
      cases past with
      | nil =>
        obtain ⟨rfl, -⟩ := List.cons.inj h
        exact ⟨[], log, rfl, rfl⟩
      | cons b past =>
        obtain ⟨rfl, hrest⟩ := List.cons.inj h
        obtain ⟨front, rest, rfl, hpast⟩ := ih hrest
        exact ⟨(j, a) :: front, rest, rfl, by simpa [own] using hpast⟩
    · have hskip (l : List (ι × C)) : own i ((j, a) :: l) = own i l := by simp [own, hj]
      rw [hskip] at h
      obtain ⟨front, rest, rfl, hpast⟩ := ih h
      exact ⟨(j, a) :: front, rest, rfl, by rw [hskip, hpast]⟩

namespace Guard

variable (G : Guard S ι D C)

/-- The store after a log of changes, each permitted to its thread when it was made. -/
inductive Told (d₀ : D) : List (ι × C) → D → Prop
  | nil : Told d₀ [] d₀
  | snoc {log : List (ι × C)} {d d' : D} {i : ι} {c : C} (front : Told d₀ log d)
      (permitted : G.permits i (own i log) c) (done : G.does c d d') :
      Told d₀ (log ++ [(i, c)]) d'

variable {G} in
theorem Told.makes {d₀ d d' : D} {log : List (ι × C)} {x : Event S ι} {made : List C}
    (h : G.Told d₀ log d) (hmakes : G.Makes x (own x.tid log) d d' made) :
    G.Told d₀ (log ++ made.map fun c => (x.tid, c)) d' := by
  cases hmakes with
  | nothing _ => simpa using h
  | change _ permitted done _ => exact .snoc h permitted done

variable {G} in
theorem Told.permitted {d₀ d : D} {log front rest : List (ι × C)} {i : ι} {c : C}
    (h : G.Told d₀ log d) (hlog : log = front ++ (i, c) :: rest) : G.permits i (own i front) c := by
  induction h generalizing rest with
  | nil => cases front <;> cases hlog
  | @snoc log d d' j c' told permitted done ih =>
    rcases List.eq_nil_or_concat rest with rfl | ⟨rest, last, rfl⟩
    · obtain ⟨rfl, hlast⟩ := List.append_inj' hlog rfl
      cases hlast
      exact permitted
    · rw [List.concat_eq_append, ← List.cons_append, ← List.append_assoc] at hlog
      exact ih (List.append_inj' hlog rfl).1

/-- A state of the pool with the log that led to it. -/
structure Watched (Q : ι → Except ε α → List C → Prop) (d₀ : D) (log : List (ι × C))
    (p : Pool S ε α ι D) : Prop where
  sound : G.inv p.data
  thread : ∀ i, (p.thread i).Obeys G i (Q i) (own i log)
    (if p.holder = some i then some p.data else none)
  told : G.Told d₀ log p.data

variable {G} {Q : ι → Except ε α → List C → Prop} {d₀ : D} {log : List (ι × C)}
  {p q : Pool S ε α ι D} {i : ι} {x : Event S ι}

theorem Watched.moved (h : G.Watched Q d₀ log p) {made : List C}
    (hmakes : G.Makes x (own x.tid log) p.data q.data made) (hmove : Pool.Move G.effect p x q)
    (hi : (q.thread x.tid).Obeys G x.tid (Q x.tid) (own x.tid log ++ made)
      (if q.holder = some x.tid then some q.data else none))
    (hothers : ∀ j ≠ x.tid, (if q.holder = some j then some q.data else none) =
      if p.holder = some j then some p.data else none) :
    G.Watched Q d₀ (log ++ made.map fun c => (x.tid, c)) q := by
  refine ⟨hmakes.sound h.sound, fun j => ?_, h.told.makes hmakes⟩
  rw [own_append]
  by_cases hj : j = x.tid
  · subst hj
    rw [own_made]
    exact hi
  · rw [own_made_ne hj, List.append_nil, hmove.thread_ne hj, hothers j hj]
    exact h.thread j

/-- What one move makes of the store is added to the log, and only the holder adds to it. -/
theorem Watched.move (h : G.Watched Q d₀ log p) (hmove : Pool.Move G.effect p x q) :
    ∃ made, G.Watched Q d₀ (log ++ made.map fun c => (x.tid, c)) q ∧
      G.Makes x (own x.tid log) p.data q.data made ∧ (made ≠ [] → p.holder = some x.tid) := by
  have hi := h.thread x.tid
  have hstill {j : ι} : [] ≠ ([] : List C) → p.holder = some j := fun hnil => absurd rfl hnil
  have hmove' := hmove
  cases hmove with
  | @op i o k r d hop heff =>
    rw [Event.tid, hop] at hi
    by_cases hholds : p.holder = some i
    · rw [if_pos hholds] at hi
      obtain ⟨made, hmakes, hrest⟩ := hi.2 r d heff
      refine ⟨made, h.moved hmakes hmove' (by simpa [Pool.advance, Event.tid, hholds] using hrest) ?_,
        hmakes, fun _ => hholds⟩
      intro j hj
      simp [Pool.advance, hholds, Ne.symm (show j ≠ i from hj)]
    · rw [if_neg hholds] at hi
      obtain ⟨hout, hrest⟩ := hi
      obtain ⟨rfl, hrest⟩ := hrest p.data r d h.sound heff
      have hmakes : G.Makes (.op i o r) (own i log) p.data p.data [] := .nothing (G.idle i _ o r hout)
      refine ⟨[], h.moved hmakes hmove' (by simpa [Pool.advance, Event.tid, hholds] using hrest) ?_,
        hmakes, hstill⟩
      exact fun j _ => rfl
  | @acquire i n k hw free =>
    rw [Event.tid, hw, if_neg (by simp [free])] at hi
    have hmakes : G.Makes (.acquired i) (own i log) p.data p.data [] := .nothing id
    refine ⟨[], h.moved hmakes hmove' (by simpa [Pool.advance, Event.tid] using hi.2 _ h.sound) ?_,
      hmakes, hstill⟩
    intro j hj
    simp [free, Ne.symm (show j ≠ i from hj)]
  | @timeout i n k hw =>
    have hholds : ¬ p.holder = some i := by
      intro hholds
      rw [Event.tid, hw, if_pos hholds] at hi
      exact hi
    rw [Event.tid, hw, if_neg hholds] at hi
    have hmakes : G.Makes (.timedOut i) (own i log) p.data p.data [] := .nothing id
    refine ⟨[], h.moved hmakes hmove' (by simpa [Pool.advance, Event.tid, hholds] using hi.1) ?_,
      hmakes, hstill⟩
    exact fun j _ => rfl
  | @release i k hr =>
    have hholds : p.holder = some i := by
      by_contra hholds
      rw [Event.tid, hr, if_neg hholds] at hi
      exact hi
    rw [Event.tid, hr, if_pos hholds] at hi
    have hgoes : (k ()).Obeys G i (Q i) (own i log) none := hi
    have hmakes : G.Makes (.released i) (own i log) p.data p.data [] := .nothing id
    refine ⟨[], h.moved hmakes hmove' (by simpa [Pool.advance, Event.tid, hholds] using hgoes) ?_,
      hmakes, hstill⟩
    intro j hj
    simp [hholds, Ne.symm (show j ≠ i from hj)]

theorem Watched.asks (h : G.Watched Q d₀ log p) {o : S.Op} {k : S.Ret o → Prog S ε α}
    (hi : p.thread i = .perform (.op o) k) :
    if p.holder = some i then G.inside o else G.outside i (own i log) o := by
  have hobeys := h.thread i
  rw [hi] at hobeys
  split_ifs at hobeys ⊢
  · exact hobeys.1
  · exact hobeys.1

theorem Watched.ended (h : G.Watched Q d₀ log p) {x : Except ε α} (hi : p.thread i = Prog.orRaise x) :
    p.holder ≠ some i ∧ Q i x (own i log) := by
  have hobeys := h.thread i
  rw [hi] at hobeys
  split_ifs at hobeys with hholds
  · cases x <;> exact hobeys.elim
  · cases x <;> exact ⟨hholds, hobeys⟩

end Guard

/-! ## Coming to an end -/

namespace Pool

variable {E : Effect S ι D} {p : Pool S ε α ι D}

/-- A thread can go on to its end, whoever holds the lock: it may find it busy. -/
theorem exists_ended (hE : ∀ i o d, ∃ r d', E i o d r d') (p : Pool S ε α ι D) (i : ι) :
    ∃ q, Runs E p q ∧ q.ended i = true ∧ ∀ j ≠ i, q.thread j = p.thread j := by
  generalize ht : p.thread i = t
  induction t generalizing p with
  | ret a => exact ⟨p, .refl p, by simp [ended, ht], fun _ _ => rfl⟩
  | raise e => exact ⟨p, .refl p, by simp [ended, ht], fun _ _ => rfl⟩
  | perform c k ih =>
    have hmove {q : Pool S ε α ι D} {r : c.Ret} (hstep : Step E p i q)
        (hq : q.thread = Function.update p.thread i (k r)) :
        ∃ q', Runs E p q' ∧ q'.ended i = true ∧ ∀ j ≠ i, q'.thread j = p.thread j := by
      obtain ⟨q', hrun, hend, hothers⟩ := ih r q (by rw [hq, Function.update_self])
      refine ⟨q', .trans (.next (.refl p) hstep) hrun, hend, fun j hj => ?_⟩
      rw [hothers j hj, hq, Function.update_of_ne hj]
    cases c with
    | op o =>
      obtain ⟨r, d, heff⟩ := hE i o p.data
      exact hmove (.op ht heff) rfl
    | waitLock n => exact hmove (.timeout ht) rfl
    | releaseLock => exact hmove (.release ht) rfl

theorem exists_all_ended [Fintype ι] (hE : ∀ i o d, ∃ r d', E i o d r d') (p : Pool S ε α ι D) :
    ∃ q, Runs E p q ∧ ∀ i, q.ended i = true := by
  suffices h : ∀ threads : Finset ι, ∃ q, Runs E p q ∧ ∀ i ∈ threads, q.ended i = true by
    obtain ⟨q, hrun, hend⟩ := h Finset.univ
    exact ⟨q, hrun, fun i => hend i (Finset.mem_univ i)⟩
  intro threads
  induction threads using Finset.induction_on with
  | empty => exact ⟨p, .refl p, by simp⟩
  | insert i threads _ ih =>
    obtain ⟨q, hrun, hend⟩ := ih
    obtain ⟨q', hrun', hi, hothers⟩ := exists_ended hE q i
    refine ⟨q', hrun.trans hrun', fun j hj => ?_⟩
    by_cases hji : j = i
    · rw [hji]
      exact hi
    · have hj' := hend j ((Finset.mem_insert.mp hj).resolve_left hji)
      rwa [ended, hothers j hji, ← ended]

end Pool
end Log
end Script
