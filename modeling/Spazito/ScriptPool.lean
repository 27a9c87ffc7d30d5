import Spazito.ScriptProgram

set_option autoImplicit false

/-!
# Pools of programs

Any number of programs run over one shared store, one command at a time in any order; one lock
keeps its holder's section apart from the others. Waiting for the lock may fail at any time.

A program is disciplined when it changes the protected part of the store only while it holds the
lock, and releases the lock exactly when it holds it. In a pool of disciplined programs the locked
sections happen one after another, as far as the protected part can tell (`serialized`).
-/
namespace Script

variable {S : Signature} {ε α ι D V : Type}

/-- Which answers a member of the pool may get to an operation, and what the store becomes. -/
abbrev Effect (S : Signature) (ι D : Type) := ι → (o : S.Op) → D → S.Ret o → D → Prop

/-- `order` is the history of the lock: who took it, oldest first. -/
structure Pool (S : Signature) (ε α ι D : Type) where
  thread : ι → Prog S ε α
  holder : Option ι
  data : D
  order : List ι

namespace Pool

variable [DecidableEq ι]

def advance (p : Pool S ε α ι D) (i : ι) (q : Prog S ε α) : Pool S ε α ι D :=
  { p with thread := Function.update p.thread i q }

inductive Step (E : Effect S ι D) : Pool S ε α ι D → ι → Pool S ε α ι D → Prop
  | op {p : Pool S ε α ι D} {i : ι} {o : S.Op} {k : S.Ret o → Prog S ε α} {r : S.Ret o} {d : D}
      (at_op : p.thread i = .perform (.op o) k) (effect : E i o p.data r d) :
      Step E p i { p.advance i (k r) with data := d }
  | acquire {p : Pool S ε α ι D} {i : ι} {n : ℕ} {k : Bool → Prog S ε α}
      (at_wait : p.thread i = .perform (.waitLock n) k) (free : p.holder = none) :
      Step E p i { p.advance i (k true) with holder := some i, order := p.order ++ [i] }
  | timeout {p : Pool S ε α ι D} {i : ι} {n : ℕ} {k : Bool → Prog S ε α}
      (at_wait : p.thread i = .perform (.waitLock n) k) : Step E p i (p.advance i (k false))
  | release {p : Pool S ε α ι D} {i : ι} {k : Unit → Prog S ε α}
      (at_release : p.thread i = .perform .releaseLock k) :
      Step E p i { p.advance i (k ()) with
        holder := if p.holder = some i then none else p.holder }

inductive Runs (E : Effect S ι D) : Pool S ε α ι D → Pool S ε α ι D → Prop
  | refl (p : Pool S ε α ι D) : Runs E p p
  | next {p q r : Pool S ε α ι D} {i : ι} (front : Runs E p q) (step : Step E q i r) : Runs E p r

def start (thread : ι → Prog S ε α) (d : D) : Pool S ε α ι D := ⟨thread, none, d, []⟩

/-- The invariant rule for one thread: its own commands keep `I`, whatever the answers are. -/
theorem Runs.thread {E : Effect S ι D} {p₀ p : Pool S ε α ι D} {i : ι} {I : Prog S ε α → Prop}
    (h : Runs E p₀ p) (hstart : I (p₀.thread i))
    (hop : ∀ o k d r d', I (.perform (.op o) k) → E i o d r d' → I (k r))
    (hwait : ∀ n k b, I (.perform (.waitLock n) k) → I (k b))
    (hrelease : ∀ k, I (.perform .releaseLock k) → I (k ())) : I (p.thread i) := by
  have hmove : ∀ (q : Pool S ε α ι D) (j : ι) (t : Prog S ε α), I (q.thread i) →
      (j = i → I t) → I ((q.advance j t).thread i) := by
    intro q j t hq ht
    by_cases hj : j = i
    · subst hj
      simpa [advance] using ht rfl
    · simpa [advance, Ne.symm hj] using hq
  induction h with
  | refl => exact hstart
  | next _ hstep ih =>
    cases hstep with
    | op at_op heff =>
      refine hmove _ _ _ ih ?_
      rintro rfl
      rw [at_op] at ih
      exact hop _ _ _ _ _ ih heff
    | acquire at_wait =>
      refine hmove _ _ _ ih ?_
      rintro rfl
      rw [at_wait] at ih
      exact hwait _ _ true ih
    | timeout at_wait =>
      refine hmove _ _ _ ih ?_
      rintro rfl
      rw [at_wait] at ih
      exact hwait _ _ false ih
    | release at_release =>
      refine hmove _ _ _ ih ?_
      rintro rfl
      rw [at_release] at ih
      exact hrelease _ ih

theorem Runs.within {E : Effect S ι D} {A : ι → Cmd S → Prop} {P : ι → Prog S ε α} {d : D}
    (hP : ∀ i, (P i).Within (A i)) {p : Pool S ε α ι D} (h : Runs E (start P d) p) :
    Runs (fun i o d r d' => A i (.op o) ∧ E i o d r d') (start P d) p := by
  induction h with
  | refl => exact .refl _
  | @next q r i front hstep ih =>
    have hi : (q.thread i).Within (A i) :=
      front.thread (hP i) (fun o k d r d' hk _ => hk.2 r) (fun n k b hk => hk.2 b)
        fun k hk => hk.2 ()
    cases hstep with
    | op hop heff =>
      rw [hop] at hi
      exact .next ih (.op hop ⟨hi.1, heff⟩)
    | acquire hw free => exact .next ih (.acquire hw free)
    | timeout hw => exact .next ih (.timeout hw)
    | release hr => exact .next ih (.release hr)

def ended (p : Pool S ε α ι D) (i : ι) : Bool :=
  match p.thread i with
  | .ret _ | .raise _ => true
  | .perform _ _ => false

omit [DecidableEq ι] in
theorem ended_iff {p : Pool S ε α ι D} {i : ι} :
    p.ended i = true ↔ (∃ a, p.thread i = .ret a) ∨ ∃ e, p.thread i = .raise e := by
  cases h : p.thread i <;> simp [ended, h]

def outcome? (p : Pool S ε α ι D) (i : ι) : Option (Except ε α) :=
  match p.thread i with
  | .ret a => some (.ok a)
  | .raise e => some (.error e)
  | .perform _ _ => none

omit [DecidableEq ι] in
theorem outcome?_eq_some {p : Pool S ε α ι D} {i : ι} {x : Except ε α} :
    p.outcome? i = some x ↔ p.thread i = Prog.orRaise x := by
  cases h : p.thread i <;> cases x <;> simp [outcome?, h, Prog.orRaise]

/-- One command of one thread, answered by a function; `grant` says whether a wait is given the free
lock. -/
def play (answer : ι → (o : S.Op) → D → S.Ret o × D) (p : Pool S ε α ι D) (move : ι × Bool) :
    Pool S ε α ι D :=
  match p.thread move.1 with
  | .ret _ | .raise _ => p
  | .perform (.op o) k =>
    { p.advance move.1 (k (answer move.1 o p.data).1) with data := (answer move.1 o p.data).2 }
  | .perform (.waitLock _) k =>
    if p.holder = none ∧ move.2 = true then
      { p.advance move.1 (k true) with holder := some move.1, order := p.order ++ [move.1] }
    else p.advance move.1 (k false)
  | .perform .releaseLock k =>
    { p.advance move.1 (k ()) with holder := if p.holder = some move.1 then none else p.holder }

def keepsTo (answer : ι → (o : S.Op) → D → S.Ret o × D) (ok : S.Op → Bool) (p : Pool S ε α ι D) :
    List (ι × Bool) → Bool
  | [] => true
  | move :: moves =>
    (match p.thread move.1 with
      | .perform (.op o) _ => ok o
      | _ => true) && keepsTo answer ok (play answer p move) moves

theorem Runs.trans {E : Effect S ι D} {p q r : Pool S ε α ι D} (h : Runs E p q) (h' : Runs E q r) :
    Runs E p r := by
  induction h' with
  | refl => exact h
  | next _ step ih => exact .next ih step

theorem runs_play_of {E : Effect S ι D} {answer : ι → (o : S.Op) → D → S.Ret o × D}
    (ok : S.Op → Bool) (hE : ∀ i o d, ok o = true → E i o d (answer i o d).1 (answer i o d).2)
    {p : Pool S ε α ι D} {moves : List (ι × Bool)} (h : keepsTo answer ok p moves = true) :
    Runs E p (moves.foldl (play answer) p) := by
  induction moves generalizing p with
  | nil => exact .refl p
  | cons move moves ih =>
    rw [keepsTo, Bool.and_eq_true] at h
    obtain ⟨hok, hrest⟩ := h
    refine Runs.trans ?_ (ih hrest)
    rw [play]
    split
    · exact .refl p
    · exact .refl p
    · next hop =>
      rw [hop] at hok
      exact .next (.refl p) (.op hop (hE _ _ _ hok))
    · next hwait =>
      split_ifs with h
      · exact .next (.refl p) (.acquire hwait h.1)
      · exact .next (.refl p) (.timeout hwait)
    · next hrelease => exact .next (.refl p) (.release hrelease)

theorem runs_play {E : Effect S ι D} {answer : ι → (o : S.Op) → D → S.Ret o × D}
    (hE : ∀ i o d, E i o d (answer i o d).1 (answer i o d).2) {p : Pool S ε α ι D}
    (moves : List (ι × Bool)) : Runs E p (moves.foldl (play answer) p) := by
  refine runs_play_of (fun _ => true) (fun i o d _ => hE i o d) ?_
  induction moves generalizing p with
  | nil => rfl
  | cons move moves ih =>
    rw [keepsTo, ih, Bool.and_true]
    split <;> rfl

end Pool

/-! ## Discipline -/

namespace Prog

/-- With the lock held or not: protected operations only under the lock, no second wait, a release
only of a held lock, and no lock left behind on either exit. -/
def Disciplined (W : S.Op → Prop) : Bool → Prog S ε α → Prop
  | held, ret _ | held, raise _ => held = false
  | held, perform (.op o) k => (W o → held = true) ∧ ∀ r, (k r).Disciplined W held
  | held, perform (.waitLock _) k =>
    held = false ∧ (k true).Disciplined W true ∧ (k false).Disciplined W false
  | held, perform .releaseLock k => held = true ∧ (k ()).Disciplined W false

variable {β : Type} {W : S.Op → Prop}

theorem Disciplined.bind {p : Prog S ε α} {f : α → Prog S ε β} {held : Bool}
    (hp : p.Disciplined W held) (hf : ∀ a, (f a).Disciplined W false) :
    (p.bind f).Disciplined W held := by
  induction p generalizing held with
  | ret a => rw [show held = false from hp]; exact hf a
  | raise e => exact hp
  | perform c k ih =>
    cases c with
    | op o => exact ⟨hp.1, fun r => ih r (hp.2 r)⟩
    | waitLock n => exact ⟨hp.1, ih true hp.2.1, ih false hp.2.2⟩
    | releaseLock => exact ⟨hp.1, ih () hp.2⟩

theorem Disciplined.section {p : Prog S ε α} (hp : p.Within fun c => ∃ o, c = .op o) :
    (p.andFinally (perform .releaseLock fun _ => ret ())).Disciplined W true := by
  induction p with
  | ret a => exact ⟨rfl, rfl⟩
  | raise e => exact ⟨rfl, rfl⟩
  | perform c k ih =>
    obtain ⟨⟨o, rfl⟩, hk⟩ := hp
    exact ⟨fun _ => rfl, fun r => ih r (hk r)⟩

theorem Disciplined.unlocked {p : Prog S ε α} (hp : p.Within fun c => ∃ o, c = .op o ∧ ¬ W o) :
    p.Disciplined W false := by
  induction p with
  | ret a => rfl
  | raise e => rfl
  | perform c k ih =>
    obtain ⟨⟨o, rfl, ho⟩, hk⟩ := hp
    exact ⟨fun h => absurd h ho, fun r => ih r (hk r)⟩

end Prog

/-! ## Sections in the order of the lock -/

/-- One locked section of one thread: the protected part before and after, the body it ran and the
rest of its program. -/
structure Section (S : Signature) (ε α ι V : Type) where
  tid : ι
  entry : V
  body : Prog S ε α
  exit : V
  after : Prog S ε α

section Serialization

variable (E : Effect S ι D) (good : D → Prop) (view : D → V)

/-- A body runs on the protected part alone: whatever else the store holds is found in some good
store with this view. -/
inductive Inside (i : ι) : V → Prog S ε α → V → Prog S ε α → Prop
  | refl (v : V) (p : Prog S ε α) : Inside i v p v p
  | op {d d' : D} {o : S.Op} {k : S.Ret o → Prog S ε α} {r : S.Ret o} {v v' : V}
      {q : Prog S ε α} (hd : good d) (hv : view d = v) (effect : E i o d r d')
      (tail : Inside i (view d') (k r) v' q) : Inside i v (.perform (.op o) k) v' q

/-- The section ran its body up to the release. -/
def Section.Closed (s : Section S ε α ι V) : Prop :=
  ∃ k, Inside E good view s.tid s.entry s.body s.exit (.perform .releaseLock k) ∧ k () = s.after

/-- Closed sections one after another, from one view to another. -/
inductive Chain : V → List (Section S ε α ι V) → V → Prop
  | nil (v : V) : Chain v [] v
  | snoc {v : V} {ss : List (Section S ε α ι V)} {s : Section S ε α ι V}
      (front : Chain v ss s.entry) (closed : s.Closed E good view) : Chain v (ss ++ [s]) s.exit

/-- The way of one thread through its program: operations outside the lock, waits that timed out,
and its sections. -/
inductive Trail (i : ι) : Prog S ε α → List (Section S ε α ι V) → Prog S ε α → Prop
  | refl (p : Prog S ε α) : Trail i p [] p
  | op {d d' : D} {o : S.Op} {k : S.Ret o → Prog S ε α} {r : S.Ret o}
      {ss : List (Section S ε α ι V)} {q : Prog S ε α} (hd : good d) (effect : E i o d r d')
      (tail : Trail i (k r) ss q) : Trail i (.perform (.op o) k) ss q
  | timeout {n : ℕ} {k : Bool → Prog S ε α} {ss : List (Section S ε α ι V)} {q : Prog S ε α}
      (tail : Trail i (k false) ss q) : Trail i (.perform (.waitLock n) k) ss q
  | locked {n : ℕ} {k : Bool → Prog S ε α} {s : Section S ε α ι V}
      {ss : List (Section S ε α ι V)} {q : Prog S ε α} (own : s.tid = i) (body : s.body = k true)
      (tail : Trail i s.after ss q) : Trail i (.perform (.waitLock n) k) (s :: ss) q

variable {E good view}

theorem Inside.trans {i : ι} {v v' v'' : V} {p p' p'' : Prog S ε α}
    (h : Inside E good view i v p v' p') (h' : Inside E good view i v' p' v'' p'') :
    Inside E good view i v p v'' p'' := by
  induction h with
  | refl _ _ => exact h'
  | op hd hv he _ ih => exact .op hd hv he (ih h')

theorem Trail.trans {i : ι} {p q r : Prog S ε α} {ss ts : List (Section S ε α ι V)}
    (h : Trail E good i p ss q) (h' : Trail E good i q ts r) : Trail E good i p (ss ++ ts) r := by
  induction h with
  | refl _ => exact h'
  | op hd he _ ih => exact .op hd he (ih h')
  | timeout _ ih => exact .timeout (ih h')
  | locked own body _ ih => exact .locked own body (ih h')

variable [DecidableEq ι] (E good view) (W : S.Op → Prop)

def mine (i : ι) (ss : List (Section S ε α ι V)) : List (Section S ε α ι V) :=
  ss.filter fun s => s.tid = i

theorem mine_concat (i : ι) (ss : List (Section S ε α ι V)) (s : Section S ε α ι V) :
    mine i (ss ++ [s]) = if s.tid = i then mine i ss ++ [s] else mine i ss := by
  by_cases h : s.tid = i <;> simp [mine, h]

/-- The protected part and the history of the lock, told as closed sections and at most one open
section. -/
def LockStory (P : ι → Prog S ε α) (v₀ : V) (ss : List (Section S ε α ι V))
    (p : Pool S ε α ι D) : Prop :=
  match p.holder with
  | none => Chain E good view v₀ ss (view p.data) ∧ p.order = ss.map (·.tid)
  | some h => ∃ v n k, Chain E good view v₀ ss v ∧ p.order = ss.map (·.tid) ++ [h] ∧
      Trail E good h (P h) (mine h ss) (.perform (.waitLock n) k) ∧
      Inside E good view h v (k true) (view p.data) (p.thread h) ∧
      (p.thread h).Disciplined W true

/-- The invariant of a disciplined pool: its sections so far, and each thread on its own way. -/
structure Serial (P : ι → Prog S ε α) (v₀ : V) (ss : List (Section S ε α ι V))
    (p : Pool S ε α ι D) : Prop where
  sound : good p.data
  outside : ∀ i, p.holder ≠ some i →
    Trail E good i (P i) (mine i ss) (p.thread i) ∧ (p.thread i).Disciplined W false
  story : LockStory E good view W P v₀ ss p

variable {E good view W} {P : ι → Prog S ε α} {v₀ : V} {ss : List (Section S ε α ι V)}
  {p q : Pool S ε α ι D} {i : ι}

theorem Serial.outside_advance (hs : Serial E good view W P v₀ ss p) (t : Prog S ε α)
    (ht : Trail E good i (P i) (mine i ss) t ∧ t.Disciplined W false) (j : ι)
    (hj : p.holder ≠ some j) :
    Trail E good j (P j) (mine j ss) ((p.advance i t).thread j) ∧
      ((p.advance i t).thread j).Disciplined W false := by
  by_cases h : j = i
  · subst h
    simpa [Pool.advance] using ht
  · simpa [Pool.advance, h] using hs.outside j hj

theorem LockStory.advance (hs : LockStory E good view W P v₀ ss p) (t : Prog S ε α) (d : D)
    (hi : p.holder ≠ some i) (hd : view d = view p.data) :
    LockStory E good view W P v₀ ss { p.advance i t with data := d } := by
  cases hh : p.holder with
  | none =>
    simp only [LockStory, hh] at hs
    simpa only [LockStory, Pool.advance, hh, hd] using hs
  | some h =>
    have hne : h ≠ i := by rintro rfl; exact hi hh
    simp only [LockStory, hh] at hs
    simpa only [LockStory, Pool.advance, hh, hd, Function.update_of_ne hne] using hs

theorem Serial.acquire (hs : Serial E good view W P v₀ ss p) {n : ℕ} {k : Bool → Prog S ε α}
    (hw : p.thread i = .perform (.waitLock n) k) (free : p.holder = none) :
    Serial E good view W P v₀ ss
      { p.advance i (k true) with holder := some i, order := p.order ++ [i] } := by
  obtain ⟨htrail, hdisc⟩ := hs.outside i (by simp [free])
  have hstory := hs.story
  simp only [LockStory, free] at hstory
  rw [hw] at htrail hdisc
  refine ⟨hs.sound, ?_, ?_⟩
  · intro j hj
    have hne : j ≠ i := by rintro rfl; exact hj rfl
    simpa [Pool.advance, hne] using hs.outside j (by simp [free])
  · simp only [LockStory, Pool.advance, Function.update_self]
    exact ⟨_, n, k, hstory.1, by rw [hstory.2], htrail, .refl _ _, hdisc.2.1⟩

theorem Serial.release (hs : Serial E good view W P v₀ ss p) {k : Unit → Prog S ε α}
    (hr : p.thread i = .perform .releaseLock k) :
    p.holder = some i ∧ ∃ s, Serial E good view W P v₀ (ss ++ [s])
      { p.advance i (k ()) with holder := none } := by
  have hi : p.holder = some i := by
    by_contra h
    have := (hs.outside i h).2
    rw [hr] at this
    exact absurd this.1 (by decide)
  have hstory := hs.story
  simp only [LockStory, hi] at hstory
  obtain ⟨v, n, kw, hchain, horder, htrail, hinside, hdisc⟩ := hstory
  rw [hr] at hinside hdisc
  let s : Section S ε α ι V := ⟨i, v, kw true, view p.data, k ()⟩
  have hclosed : s.Closed E good view := ⟨k, hinside, rfl⟩
  refine ⟨hi, s, hs.sound, ?_, ?_⟩
  · intro j _
    by_cases h : j = i
    · subst h
      have htail : Trail E good j (.perform (.waitLock n) kw) [s] (k ()) := .locked rfl rfl (.refl _)
      simpa [Pool.advance, mine_concat, s] using ⟨htrail.trans htail, hdisc.2⟩
    · have hne : s.tid ≠ j := fun he => h he.symm
      simpa [Pool.advance, h, mine_concat, hne] using
        hs.outside j (by rw [hi]; simpa using fun he => h he.symm)
  · simp only [LockStory, Pool.advance]
    exact ⟨.snoc hchain hclosed, by simp [horder, s]⟩

theorem Serial.step (hE : ∀ i o d r d', good d → E i o d r d' → good d')
    (frame : ∀ i o d r d', ¬ W o → E i o d r d' → view d' = view d)
    (hs : Serial E good view W P v₀ ss p) (h : Pool.Step E p i q) :
    ∃ ts, Serial E good view W P v₀ ts q := by
  cases h with
  | @op o k r d hop heff =>
    by_cases hi : p.holder = some i
    · refine ⟨ss, hE _ _ _ _ _ hs.sound heff, ?_, ?_⟩
      · intro j hj
        have hne : j ≠ i := by rintro rfl; exact hj hi
        simpa [Pool.advance, hne] using hs.outside j hj
      · have hstory := hs.story
        simp only [LockStory, hi] at hstory
        obtain ⟨v, n, kw, hchain, horder, htrail, hinside, hdisc⟩ := hstory
        rw [hop] at hinside hdisc
        have hmore : Inside E good view i v (kw true) (view d) (k r) :=
          hinside.trans (.op hs.sound rfl heff (.refl _ _))
        simp only [LockStory, Pool.advance, hi, Function.update_self]
        exact ⟨v, n, kw, hchain, horder, htrail, hmore, hdisc.2 r⟩
    · obtain ⟨htrail, hdisc⟩ := hs.outside i hi
      rw [hop] at htrail hdisc
      have hW : ¬ W o := fun hw => absurd (hdisc.1 hw) (by decide)
      have hmore := htrail.trans (.op hs.sound heff (.refl _))
      rw [List.append_nil] at hmore
      exact ⟨ss, hE _ _ _ _ _ hs.sound heff, hs.outside_advance _ ⟨hmore, hdisc.2 r⟩,
        hs.story.advance _ _ hi (frame _ _ _ _ _ hW heff)⟩
  | acquire hw free => exact ⟨ss, hs.acquire hw free⟩
  | @timeout n k hw =>
    have hi : p.holder ≠ some i := by
      intro hi
      have hstory := hs.story
      simp only [LockStory, hi] at hstory
      obtain ⟨_, _, _, _, _, _, _, hdisc⟩ := hstory
      rw [hw] at hdisc
      exact absurd hdisc.1 (by decide)
    obtain ⟨htrail, hdisc⟩ := hs.outside i hi
    rw [hw] at htrail hdisc
    have hmore := htrail.trans (.timeout (.refl _))
    rw [List.append_nil] at hmore
    exact ⟨ss, hs.sound, hs.outside_advance _ ⟨hmore, hdisc.2.2⟩,
      hs.story.advance _ _ hi rfl⟩
  | release hr =>
    obtain ⟨hi, s, hser⟩ := hs.release hr
    exact ⟨ss ++ [s], by simpa [hi] using hser⟩

theorem serial_start (d : D) (hd : good d) (hP : ∀ i, (P i).Disciplined W false) :
    Serial E good view W P (view d) [] (Pool.start P d) :=
  ⟨hd, fun i _ => ⟨.refl _, hP i⟩, .nil _, rfl⟩

variable (E good view W) in
/-- In every state that a pool of disciplined programs reaches, the protected part is what the
sections so far have made of it, one after another in the order of the lock. -/
theorem serialized (hE : ∀ i o d r d', good d → E i o d r d' → good d')
    (frame : ∀ i o d r d', ¬ W o → E i o d r d' → view d' = view d)
    (d : D) (hd : good d) (hP : ∀ i, (P i).Disciplined W false)
    (h : Pool.Runs E (Pool.start P d) p) : ∃ ss, Serial E good view W P (view d) ss p := by
  induction h with
  | refl => exact ⟨[], serial_start d hd hP⟩
  | next _ hstep ih =>
    obtain ⟨ss, hss⟩ := ih
    exact hss.step hE frame hstep

theorem Serial.lock_discipline (hs : Serial E good view W P v₀ ss p) :
    (∀ k, p.thread i = .perform .releaseLock k → p.holder = some i) ∧
    (∀ a, p.thread i = .ret a → p.holder ≠ some i) ∧
    (∀ e, p.thread i = .raise e → p.holder ≠ some i) := by
  have hend : p.holder = some i → (p.thread i).Disciplined W true := by
    intro hi
    have hstory := hs.story
    simp only [LockStory, hi] at hstory
    exact hstory.choose_spec.choose_spec.choose_spec.2.2.2.2
  refine ⟨fun k hr => (hs.release hr).1, fun a ha hi => ?_, fun e he hi => ?_⟩
  · have := hend hi
    rw [ha] at this
    exact Bool.noConfusion (show true = false from this)
  · have := hend hi
    rw [he] at this
    exact Bool.noConfusion (show true = false from this)

/-- When every thread has ended, the story is complete: all sections are closed. -/
theorem Serial.complete (hs : Serial E good view W P v₀ ss p)
    (hend : ∀ i, (∃ a, p.thread i = .ret a) ∨ ∃ e, p.thread i = .raise e) :
    Chain E good view v₀ ss (view p.data) ∧ p.order = ss.map (·.tid) ∧
      ∀ i, Trail E good i (P i) (mine i ss) (p.thread i) := by
  have hfree : ∀ i, p.holder ≠ some i := by
    intro i
    rcases hend i with ⟨a, ha⟩ | ⟨e, he⟩
    · exact hs.lock_discipline.2.1 a ha
    · exact hs.lock_discipline.2.2 e he
  have hnone : p.holder = none := by
    cases hh : p.holder with
    | none => rfl
    | some h => exact absurd hh (hfree h)
  have hstory := hs.story
  simp only [LockStory, hnone] at hstory
  exact ⟨hstory.1, hstory.2, fun i => (hs.outside i (hfree i)).1⟩

end Serialization
end Script
