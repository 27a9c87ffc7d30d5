import Spazito.ScriptPool

set_option autoImplicit false

/-!
# What happens in a run

A step of a pool is an event: an operation with its answer, or what became of a wait for the lock. A
run has its events in their order, and each thread has followed its own.
-/
namespace Script

variable {S : Signature} {ε α β ι D : Type}

/-- What a step of a pool does, with the answer. -/
inductive Event (S : Signature) (ι : Type)
  | op (i : ι) (o : S.Op) (r : S.Ret o)
  | acquired (i : ι)
  | timedOut (i : ι)
  | released (i : ι)

def Event.tid : Event S ι → ι
  | .op i _ _ | .acquired i | .timedOut i | .released i => i

def opsIn (t : List (Event S ι)) : List (Cmd S) :=
  t.filterMap fun
    | .op _ o _ => some (.op o)
    | _ => none

theorem opsIn_append (t u : List (Event S ι)) : opsIn (t ++ u) = opsIn t ++ opsIn u :=
  List.filterMap_append

theorem mem_opsIn {t : List (Event S ι)} {c : Cmd S} :
    c ∈ opsIn t ↔ ∃ i o r, .op i o r ∈ t ∧ c = .op o := by
  rw [opsIn, List.mem_filterMap]
  constructor
  · rintro ⟨x, hx, hc⟩
    cases x with
    | op i o r => exact ⟨i, o, r, hx, (Option.some.inj hc).symm⟩
    | acquired i | timedOut i | released i => cases hc
  · rintro ⟨i, o, r, hx, rfl⟩
    exact ⟨_, hx, rfl⟩

/-! ## Along a program -/

namespace Prog

inductive Takes : Prog S ε α → Event S ι → Prog S ε α → Prop
  | op (i : ι) {o : S.Op} (k : S.Ret o → Prog S ε α) (r : S.Ret o) :
      Takes (perform (.op o) k) (.op i o r) (k r)
  | acquired (i : ι) {n : ℕ} (k : Bool → Prog S ε α) :
      Takes (perform (.waitLock n) k) (.acquired i) (k true)
  | timedOut (i : ι) {n : ℕ} (k : Bool → Prog S ε α) :
      Takes (perform (.waitLock n) k) (.timedOut i) (k false)
  | released (i : ι) (k : Unit → Prog S ε α) : Takes (perform .releaseLock k) (.released i) (k ())

/-- These events, oldest first, lead from one program to what is left of it. -/
inductive Follows : Prog S ε α → List (Event S ι) → Prog S ε α → Prop
  | nil (p : Prog S ε α) : Follows p [] p
  | cons {p p' q : Prog S ε α} {x : Event S ι} {t : List (Event S ι)} (takes : p.Takes x p')
      (rest : p'.Follows t q) : Follows p (x :: t) q

variable {p q r : Prog S ε α} {x : Event S ι} {t u : List (Event S ι)}

theorem Follows.concat (h : p.Follows t q) (hx : q.Takes x r) : p.Follows (t ++ [x]) r := by
  induction h with
  | nil p => exact .cons hx (.nil r)
  | cons takes _ ih => exact .cons takes (ih hx)

theorem Follows.of_ret {a : α} (h : (ret a : Prog S ε α).Follows t q) : t = [] ∧ q = ret a := by
  cases h with
  | nil => exact ⟨rfl, rfl⟩
  | cons takes _ => cases takes

theorem Follows.of_raise {e : ε} (h : (raise e : Prog S ε α).Follows t q) : t = [] ∧ q = raise e := by
  cases h with
  | nil => exact ⟨rfl, rfl⟩
  | cons takes _ => cases takes

/-- A command and its answer, whatever is done with the answer. -/
theorem Follows.of_perform {c : Cmd S} {k : c.Ret → Prog S ε α} (h : (perform c k).Follows t q) :
    t = [] ∧ q = perform c k ∨ ∃ (x : Event S ι) (r : c.Ret) (rest : List (Event S ι)),
      t = x :: rest ∧ (k r).Follows rest q ∧
        ∀ (β : Type) (k' : c.Ret → Prog S ε β), (perform c k').Takes x (k' r) := by
  cases h with
  | nil => exact .inl ⟨rfl, rfl⟩
  | cons takes rest =>
    cases takes with
    | op i _ r => exact .inr ⟨_, r, _, rfl, rest, fun _ k' => .op i k' r⟩
    | acquired i _ => exact .inr ⟨_, true, _, rfl, rest, fun _ k' => .acquired i k'⟩
    | timedOut i _ => exact .inr ⟨_, false, _, rfl, rest, fun _ k' => .timedOut i k'⟩
    | released i _ => exact .inr ⟨_, (), _, rfl, rest, fun _ k' => .released i k'⟩

/-- In a sequence, the events are some of the first program, or all of it and some of the second. -/
theorem Follows.of_bind {p : Prog S ε β} {f : β → Prog S ε α} (h : (p.bind f).Follows t q) :
    (∃ p', p.Follows t p' ∧ q = p'.bind f) ∨
      ∃ b front back, t = front ++ back ∧ p.Follows front (ret b) ∧ (f b).Follows back q := by
  induction p generalizing t with
  | ret b => exact .inr ⟨b, [], t, rfl, .nil _, h⟩
  | raise e =>
    obtain ⟨rfl, rfl⟩ := h.of_raise
    exact .inl ⟨raise e, .nil _, rfl⟩
  | perform c k ih =>
    rcases Follows.of_perform h with ⟨rfl, rfl⟩ | ⟨x, r, rest, rfl, hrest, htakes⟩
    · exact .inl ⟨perform c k, .nil _, rfl⟩
    · rcases ih r hrest with ⟨p', hp', hq⟩ | ⟨b, front, back, rfl, hfront, hback⟩
      · exact .inl ⟨p', .cons (htakes β k) hp', hq⟩
      · exact .inr ⟨b, x :: front, back, rfl, .cons (htakes β k) hfront, hback⟩

theorem Follows.of_bind_ret {p : Prog S ε β} {f : β → Prog S ε α} {a : α}
    (h : (p.bind f).Follows t (ret a)) :
    ∃ b front back, t = front ++ back ∧ p.Follows front (ret b) ∧ (f b).Follows back (ret a) := by
  rcases h.of_bind with ⟨p', hp', ha⟩ | hdone
  · cases p' with
    | ret b =>
      have hfb : ret a = f b := ha
      exact ⟨b, t, [], by simp, hp', hfb ▸ .nil _⟩
    | raise e => cases ha
    | perform c k => cases ha
  · exact hdone

theorem Follows.of_map {p : Prog S ε β} {v : β → α} (h : (p.bind fun b => ret (v b)).Follows t q) :
    ∃ p', p.Follows t p' := by
  rcases h.of_bind with ⟨p', hp', -⟩ | ⟨b, front, back, rfl, hfront, hback⟩
  · exact ⟨p', hp'⟩
  · obtain ⟨rfl, -⟩ := hback.of_ret
    exact ⟨ret b, by rwa [List.append_nil]⟩

theorem Follows.of_catchWith {g : ε → Prog S ε α} (h : (p.catchWith g).Follows t q) :
    (∃ p', p.Follows t p' ∧ q = p'.catchWith g) ∨
      ∃ e front back, t = front ++ back ∧ p.Follows front (raise e) ∧ (g e).Follows back q := by
  induction p generalizing t with
  | ret a =>
    obtain ⟨rfl, rfl⟩ := h.of_ret
    exact .inl ⟨ret a, .nil _, rfl⟩
  | raise e => exact .inr ⟨e, [], t, rfl, .nil _, h⟩
  | perform c k ih =>
    rcases Follows.of_perform h with ⟨rfl, rfl⟩ | ⟨x, r, rest, rfl, hrest, htakes⟩
    · exact .inl ⟨perform c k, .nil _, rfl⟩
    · rcases ih r hrest with ⟨p', hp', hq⟩ | ⟨e, front, back, rfl, hfront, hback⟩
      · exact .inl ⟨p', .cons (htakes α k) hp', hq⟩
      · exact .inr ⟨e, x :: front, back, rfl, .cons (htakes α k) hfront, hback⟩

theorem Follows.of_op {o : S.Op} {k : S.Ret o → Prog S ε α} (h : (perform (.op o) k).Follows t q) :
    t = [] ∧ q = perform (.op o) k ∨ ∃ i r rest, t = .op i o r :: rest ∧ (k r).Follows rest q := by
  cases h with
  | nil => exact .inl ⟨rfl, rfl⟩
  | cons takes rest =>
    cases takes with
    | op i _ r => exact .inr ⟨i, r, _, rfl, rest⟩

theorem Follows.of_waitLock {n : ℕ} {k : Bool → Prog S ε α} (h : (perform (.waitLock n) k).Follows t q) :
    t = [] ∧ q = perform (.waitLock n) k ∨ ∃ i rest,
      t = .acquired i :: rest ∧ (k true).Follows rest q ∨
        t = .timedOut i :: rest ∧ (k false).Follows rest q := by
  cases h with
  | nil => exact .inl ⟨rfl, rfl⟩
  | cons takes rest =>
    cases takes with
    | acquired i _ => exact .inr ⟨i, _, .inl ⟨rfl, rest⟩⟩
    | timedOut i _ => exact .inr ⟨i, _, .inr ⟨rfl, rest⟩⟩

theorem Follows.of_releaseLock {k : Unit → Prog S ε α} (h : (perform .releaseLock k).Follows t q) :
    t = [] ∧ q = perform .releaseLock k ∨ ∃ i rest, t = .released i :: rest ∧ (k ()).Follows rest q := by
  cases h with
  | nil => exact .inl ⟨rfl, rfl⟩
  | cons takes rest =>
    cases takes with
    | released i _ => exact .inr ⟨i, _, rfl, rest⟩

theorem Within.follows {A : Cmd S → Prop} (hp : p.Within A) (h : p.Follows t q) :
    ∀ c ∈ opsIn t, A c := by
  induction h with
  | nil p => exact fun _ hmem => absurd hmem List.not_mem_nil
  | @cons p p' q x t takes _ ih =>
    cases takes with
    | op i k r =>
      intro c hc
      rcases List.mem_cons.mp hc with rfl | hc
      · exact hp.1
      · exact ih (hp.2 r) c hc
    | acquired i k | timedOut i k => exact ih (hp.2 _)
    | released i k => exact ih (hp.2 ())

end Prog

/-! ## Along a run -/

namespace Pool

variable [DecidableEq ι]

/-- A step with what happens in it. -/
inductive Move (E : Effect S ι D) (p : Pool S ε α ι D) : Event S ι → Pool S ε α ι D → Prop
  | op {i : ι} {o : S.Op} {k : S.Ret o → Prog S ε α} {r : S.Ret o} {d : D}
      (at_op : p.thread i = .perform (.op o) k) (effect : E i o p.data r d) :
      Move E p (.op i o r) { p.advance i (k r) with data := d }
  | acquire {i : ι} {n : ℕ} {k : Bool → Prog S ε α} (at_wait : p.thread i = .perform (.waitLock n) k)
      (free : p.holder = none) :
      Move E p (.acquired i) { p.advance i (k true) with holder := some i, order := p.order ++ [i] }
  | timeout {i : ι} {n : ℕ} {k : Bool → Prog S ε α} (at_wait : p.thread i = .perform (.waitLock n) k) :
      Move E p (.timedOut i) (p.advance i (k false))
  | release {i : ι} {k : Unit → Prog S ε α} (at_release : p.thread i = .perform .releaseLock k) :
      Move E p (.released i) { p.advance i (k ()) with
        holder := if p.holder = some i then none else p.holder }

/-- Runs with their events, oldest first. -/
inductive Course (E : Effect S ι D) (p : Pool S ε α ι D) : List (Event S ι) → Pool S ε α ι D → Prop
  | refl : Course E p [] p
  | next {t : List (Event S ι)} {q r : Pool S ε α ι D} {x : Event S ι} (front : Course E p t q)
      (move : Move E q x r) : Course E p (t ++ [x]) r

variable {E : Effect S ι D} {p q r : Pool S ε α ι D} {x : Event S ι} {t u : List (Event S ι)} {i : ι}

theorem Move.step (h : Move E p x q) : Step E p x.tid q := by
  cases h with
  | op at_op effect => exact .op at_op effect
  | acquire at_wait free => exact .acquire at_wait free
  | timeout at_wait => exact .timeout at_wait
  | release at_release => exact .release at_release

theorem Step.exists_move (h : Step E p i q) : ∃ x, x.tid = i ∧ Move E p x q := by
  cases h with
  | op at_op effect => exact ⟨.op i _ _, rfl, .op at_op effect⟩
  | acquire at_wait free => exact ⟨.acquired i, rfl, .acquire at_wait free⟩
  | timeout at_wait => exact ⟨.timedOut i, rfl, .timeout at_wait⟩
  | release at_release => exact ⟨.released i, rfl, .release at_release⟩

theorem runs_iff_course : Runs E p q ↔ ∃ t, Course E p t q := by
  constructor
  · intro h
    induction h with
    | refl => exact ⟨[], .refl⟩
    | next _ step ih =>
      obtain ⟨t, ht⟩ := ih
      obtain ⟨x, -, hx⟩ := step.exists_move
      exact ⟨t ++ [x], ht.next hx⟩
  · rintro ⟨t, ht⟩
    induction ht with
    | refl => exact .refl p
    | next _ move ih => exact .next ih move.step

theorem Course.trans (h : Course E p t q) (h' : Course E q u r) : Course E p (t ++ u) r := by
  induction h' with
  | refl => simpa using h
  | next _ move ih => simpa using ih.next move

theorem Move.takes (h : Move E p x q) : (p.thread x.tid).Takes x (q.thread x.tid) := by
  cases h with
  | @op i o k r d at_op effect =>
    have hq : Function.update p.thread i (k r) i = k r := Function.update_self ..
    rw [Event.tid, at_op, show Pool.thread _ i = k r from hq]
    exact .op i k r
  | @acquire i n k at_wait free =>
    have hq : Function.update p.thread i (k true) i = k true := Function.update_self ..
    rw [Event.tid, at_wait, show Pool.thread _ i = k true from hq]
    exact .acquired i k
  | @timeout i n k at_wait =>
    have hq : Function.update p.thread i (k false) i = k false := Function.update_self ..
    rw [Event.tid, at_wait, show Pool.thread _ i = k false from hq]
    exact .timedOut i k
  | @release i k at_release =>
    have hq : Function.update p.thread i (k ()) i = k () := Function.update_self ..
    rw [Event.tid, at_release, show Pool.thread _ i = k () from hq]
    exact .released i k

theorem Move.thread_ne (h : Move E p x q) (hi : i ≠ x.tid) : q.thread i = p.thread i := by
  cases h <;> exact Function.update_of_ne hi _ _

def ownEvents (i : ι) (t : List (Event S ι)) : List (Event S ι) := t.filter fun x => x.tid = i

theorem ownEvents_append (i : ι) (t u : List (Event S ι)) :
    ownEvents i (t ++ u) = ownEvents i t ++ ownEvents i u := List.filter_append ..

theorem mem_ownEvents : x ∈ ownEvents i t ↔ x ∈ t ∧ x.tid = i := by simp [ownEvents]

theorem Course.follows (h : Course E p t q) (i : ι) :
    (p.thread i).Follows (ownEvents i t) (q.thread i) := by
  induction h with
  | refl => exact .nil _
  | @next t q r x _ move ih =>
    rw [ownEvents_append]
    by_cases hi : x.tid = i
    · subst hi
      have hown : ownEvents x.tid [x] = [x] := by simp [ownEvents]
      rw [hown]
      exact ih.concat move.takes
    · have hnone : ownEvents i [x] = [] := by simp [ownEvents, hi]
      rw [hnone, List.append_nil, move.thread_ne (Ne.symm hi)]
      exact ih

/-! ## Played schedules -/

def eventOf (answer : ι → (o : S.Op) → D → S.Ret o × D) (p : Pool S ε α ι D) (move : ι × Bool) :
    Option (Event S ι) :=
  match p.thread move.1 with
  | .ret _ | .raise _ => none
  | .perform (.op o) _ => some (.op move.1 o (answer move.1 o p.data).1)
  | .perform (.waitLock _) _ =>
    if p.holder = none ∧ move.2 = true then some (.acquired move.1) else some (.timedOut move.1)
  | .perform .releaseLock _ => some (.released move.1)

def eventsOf (answer : ι → (o : S.Op) → D → S.Ret o × D) (p : Pool S ε α ι D) :
    List (ι × Bool) → List (Event S ι)
  | [] => []
  | move :: moves => (eventOf answer p move).toList ++ eventsOf answer (play answer p move) moves

theorem course_play {answer : ι → (o : S.Op) → D → S.Ret o × D}
    (hE : ∀ i o d, E i o d (answer i o d).1 (answer i o d).2) (moves : List (ι × Bool)) :
    Course E p (eventsOf answer p moves) (moves.foldl (play answer) p) := by
  induction moves generalizing p with
  | nil => exact .refl
  | cons move moves ih =>
    refine Course.trans (q := play answer p move) ?_ ih
    unfold eventOf play
    cases hthread : p.thread move.1 with
    | ret a => exact .refl
    | raise e => exact .refl
    | perform c k =>
      cases c with
      | op o => exact .next .refl (.op hthread (hE _ _ _))
      | waitLock n =>
        dsimp only
        split_ifs with hgrant
        · exact .next .refl (.acquire hthread hgrant.1)
        · exact .next .refl (.timeout hthread)
      | releaseLock => exact .next .refl (.release hthread)

end Pool
end Script
