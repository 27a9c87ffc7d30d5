import Spazito.AppsScript
import Spazito.ShellFootprints
import Spazito.ShellLocks
import Spazito.WatchlistState

set_option autoImplicit false

/-!
# The watchlist in many executions at once

Operations take effect one after another, in the order of the lock, on the abstract watchlist; the
self-healing read is the identity on what operations have written.
-/
namespace Spazito
open Ecma Script

namespace Watchlist

/-! ## Operations as programs -/

section Programs

variable [Platform]

def addUnderLock (ticker : JSString) : Action Outcome := do
  let current ← tickers
  if current.contains ticker then return .duplicate ticker current
  else if maxTickers ≤ current.length then return .atCap ticker current
  else
    let updated := current ++ [ticker]
    store updated
    return .added ticker updated

def removeUnderLock (ticker : JSString) : Action Outcome := do
  let current ← tickers
  if !current.contains ticker then return .notFound ticker current
  else
    let updated := current.filter (· ≠ ticker)
    store updated
    return .removed ticker updated (updated = [])

omit [Platform] in
def setPausedUnderLock (paused : Bool) : Action Outcome := do
  setProperty .paused (if paused then js "true" else js "false")
  return if paused then .paused else .resumed

namespace Operation

def program : Operation → Action Outcome
  | .add raw => Watchlist.add raw
  | .remove raw => Watchlist.remove raw
  | .setPaused b => Watchlist.setPaused b

/-- What is decided without the lock: an answer, or what to do under it. -/
def plan : Operation → Except Fault (Outcome ⊕ Action Outcome)
  | .add raw => do
    let t ← Tickers.normalize raw
    return if Tickers.Canonical t then .inr (addUnderLock t) else .inl (.invalid t)
  | .remove raw => do return .inr (removeUnderLock (← Tickers.normalize raw))
  | .setPaused b => return .inr (setPausedUnderLock b)

theorem program_eq (op : Operation) : op.program = (eval op.plan).bind fun
    | .inl out => .ret out
    | .inr mutate => withLock mutate := by
  cases op with
  | add raw =>
    rw [program, Watchlist.add, plan]
    cases hn : Tickers.normalize raw with
    | error f => rfl
    | ok t =>
      by_cases hc : Tickers.Canonical t <;>
        simp [eval, Tickers.isValid_normalized hn, hc, addUnderLock]
  | remove raw =>
    rw [program, Watchlist.remove, plan]
    cases hn : Tickers.normalize raw with
    | error f => rfl
    | ok t => rfl
  | setPaused b => rfl

theorem lockless_plan {op : Operation} {mutate : Action Outcome} (h : op.plan = .ok (.inr mutate)) :
    mutate.Lockless := by
  have hchange : ∀ (ts : List JSString) (out : Outcome),
      ((store ts).bind fun _ => (.ret out : Action Outcome)).Lockless :=
    fun ts out => (lockless_store ts).bind fun _ => (quiet_ret out).lockless
  cases op with
  | add raw =>
    cases hn : Tickers.normalize raw with
    | error f => simp [plan, hn] at h
    | ok t =>
      simp only [plan, hn, ok_bind, pure_eq_ok, Except.ok.injEq] at h
      split_ifs at h
      obtain rfl := Sum.inr.inj h
      refine quiet_tickers.lockless.bind fun current => ?_
      split_ifs
      · exact (quiet_ret _).lockless
      · exact (quiet_ret _).lockless
      · exact hchange _ _
  | remove raw =>
    cases hn : Tickers.normalize raw with
    | error f => simp [plan, hn] at h
    | ok t =>
      simp only [plan, hn, ok_bind, pure_eq_ok, Except.ok.injEq] at h
      obtain rfl := Sum.inr.inj h
      refine quiet_tickers.lockless.bind fun current => ?_
      split_ifs
      · exact (quiet_ret _).lockless
      · exact hchange _ _
  | setPaused b =>
    obtain rfl := Sum.inr.inj (Except.ok.inj h)
    exact (lockless_setProperty _ _).bind fun _ => (quiet_ret _).lockless

omit [Platform] in
theorem apply_of_normalize {raw : Value} {f : Fault} (hn : Tickers.normalize raw = .error f)
    (a : Tracked) : (add raw).apply a = .error f ∧ (remove raw).apply a = .error f := by
  simp [apply, hn]

theorem plan_error {op : Operation} {f : Fault} (h : op.plan = .error f) (a : Tracked) :
    op.apply a = .error f := by
  cases op with
  | add raw =>
    cases hn : Tickers.normalize raw with
    | error g =>
      obtain rfl : g = f := by simpa [plan, hn] using h
      exact (apply_of_normalize hn a).1
    | ok t => simp [plan, hn] at h
  | remove raw =>
    cases hn : Tickers.normalize raw with
    | error g =>
      obtain rfl : g = f := by simpa [plan, hn] using h
      exact (apply_of_normalize hn a).2
    | ok t => simp [plan, hn] at h
  | setPaused b => cases h

theorem plan_inl {op : Operation} {out : Outcome} (h : op.plan = .ok (.inl out)) :
    ∃ t, out = .invalid t ∧ ∀ a, op.apply a = .ok (.invalid t, a) := by
  cases op with
  | add raw =>
    cases hn : Tickers.normalize raw with
    | error f => simp [plan, hn] at h
    | ok t =>
      simp only [plan, hn, ok_bind, pure_eq_ok, Except.ok.injEq] at h
      split_ifs at h with hc
      exact ⟨t, (Sum.inl.inj h).symm, fun a => by simp [apply, hn, hc]⟩
  | remove raw => cases hn : Tickers.normalize raw <;> simp [plan, hn] at h
  | setPaused b => cases h

theorem locked_program (op : Operation) : Locked op.program := by
  rw [program_eq]
  cases hp : op.plan with
  | error f => exact (quiet_raise _).locked
  | ok step =>
    cases step with
    | inl out => exact (quiet_ret _).locked
    | inr mutate => exact locked_withLock (lockless_plan hp)

end Operation
/-! ## Everyone else -/

/-- Reads anything and writes all but the two properties of the watchlist. -/
abbrev sparing : Footprint := ⟨fun _ => True, fun k => k ≠ .watchlist ∧ k ≠ .paused, fun _ => True⟩

/-- An execution that keeps to the lock and spares the watchlist. -/
structure Bystander where
  program : Action Unit
  locked : Locked program
  spares : program.Within sparing.allows

def Bystander.reader : Bystander where
  program := tickers.bind fun _ => isPaused.bind fun _ => .ret ()
  locked := (quiet_tickers.bind fun _ => quiet_isPaused.bind fun _ => quiet_ret _).locked
  spares := (within_tickers trivial).bind fun _ => (within_isPaused trivial).bind fun _ => trivial

def Bystander.gate (e : Option WebhookEvent) : Bystander where
  program := (SecurityGate.authorize e).bind fun _ => .ret ()
  locked := (SecurityGate.locked_authorize e).bind fun _ => (quiet_ret _).locked
  spares := by
    refine Prog.Within.bind ((SecurityGate.within_authorize e).mono
      (Footprint.allows_mono (fun _ _ => trivial) ?_ fun _ _ => trivial)) fun _ => trivial
    intro k hk
    exact ⟨by rintro rfl; exact absurd hk (by decide), by rintro rfl; exact absurd hk (by decide)⟩

def Bystander.counter : Bystander where
  program := SecurityVault.nextSequence.bind fun _ => .ret ()
  locked := SecurityVault.locked_nextSequence.bind fun _ => (quiet_ret _).locked
  spares := (SecurityVault.within_nextSequence trivial (by decide)).bind fun _ => trivial

inductive Task
  | mutate (op : Operation)
  | bystander (b : Bystander)

def Task.program : Task → Action (Option Outcome)
  | .mutate op => op.program.bind fun out => .ret (some out)
  | .bystander b => b.program.bind fun _ => .ret none

theorem Task.locked_program (task : Task) : Locked task.program := by
  cases task with
  | mutate op => exact op.locked_program.bind fun _ => (quiet_ret _).locked
  | bystander b => exact b.locked.bind fun _ => (quiet_ret _).locked

abbrev Task.footprint : Task → Footprint
  | .mutate _ => .any
  | .bystander _ => sparing

theorem Task.within_program (task : Task) : task.program.Within task.footprint.allows := by
  cases task with
  | mutate op => exact Prog.within_of_forall Footprint.allows_any _
  | bystander b => exact b.spares.bind fun _ => trivial

end Programs

/-! ## Sections -/

section Sections

variable {ι : Type} {tasks : ι → Task} {i : ι} {v v' : Option JSString × Option JSString}

/-- Writes may fail; bystanders spare the watchlist. -/
abbrev poolEffect (tasks : ι → Task) : Effect GAS ι Store := fun i o s r s' =>
  (tasks i).footprint.allows (.op o) ∧ storeEffect True i o s r s'

abbrev anyStore (_ : Store) : Prop := True

theorem poolEffect_frame {o : Op} {s s' : Store} {r : o.Ret} (ho : ¬ writes o)
    (h : poolEffect tasks i o s r s') : stored s' = stored s :=
  Prod.ext (storeEffect_frame h.2 fun v hv => ho ⟨_, v, hv⟩)
    (storeEffect_frame h.2 fun v hv => ho ⟨_, v, hv⟩)

theorem poolEffect_bystander {b : Bystander} (hi : tasks i = .bystander b) {o : Op} {s s' : Store}
    {r : o.Ret} (h : poolEffect tasks i o s r s') : stored s' = stored s := by
  have hspares : sparing.allows (.op o) := by
    have := h.1
    rwa [hi] at this
  refine Prod.ext (storeEffect_frame h.2 ?_) (storeEffect_frame h.2 ?_)
  · rintro v rfl
    exact hspares.1 rfl
  · rintro v rfl
    exact hspares.2 rfl

variable [Platform]

theorem ends_tickers {a : Tracked} {x : Except JSError (List JSString)} (ha : Represents a v)
    (h : Ends (poolEffect tasks) anyStore stored i v tickers v' x) : v' = v ∧ x = .ok a.tickers := by
  rw [tickers_eq] at h
  obtain ⟨w, y, hread, hrest⟩ := ends_bind.mp h
  obtain ⟨rfl, s, r, -, hs, heff, rfl⟩ := ends_getProperty (fun _ _ _ h => h.2.2) hread
  obtain rfl : r = w.1 := by rw [← hs]; exact heff.2.1
  rw [Prog.orRaise_ok_bind, tickersFrom_eq ha] at hrest
  exact (ends_ret _).mp hrest

omit [Platform] in
theorem ends_store {ts : List JSString} {x : Except JSError Unit}
    (h : Ends (poolEffect tasks) anyStore stored i v (store ts) v' x) :
    (x = .ok () ∧ v' = (some (listText ts), v.2)) ∨ (∃ e, x = .error e) ∧ v' = v := by
  obtain ⟨s, s', -, rfl, heff, rfl⟩ := ends_setProperty h
  rcases heff.2 with ⟨rfl, rfl⟩ | ⟨-, ⟨e, rfl⟩, rfl⟩
  · exact .inl ⟨rfl, stored_set_watchlist s _⟩
  · exact .inr ⟨⟨e, rfl⟩, rfl⟩

omit [Platform] in
theorem ends_setPaused {b : Bool} {x : Except JSError Unit}
    (h : Ends (poolEffect tasks) anyStore stored i v
      (setProperty .paused (if b then js "true" else js "false")) v' x) :
    (x = .ok () ∧ v' = (v.1, some (if b then js "true" else js "false"))) ∨
      (∃ e, x = .error e) ∧ v' = v := by
  obtain ⟨s, s', -, rfl, heff, rfl⟩ := ends_setProperty h
  rcases heff.2 with ⟨rfl, rfl⟩ | ⟨-, ⟨e, rfl⟩, rfl⟩
  · exact .inl ⟨rfl, stored_set_paused s _⟩
  · exact .inr ⟨⟨e, rfl⟩, rfl⟩

theorem ends_plan {op : Operation} {mutate : Action Outcome} {a : Tracked}
    {y : Except JSError Outcome} (hplan : op.plan = .ok (.inr mutate)) (ha : Represents a v)
    (h : Ends (poolEffect tasks) anyStore stored i v mutate v' y) :
    (∃ out a', op.apply a = .ok (out, a') ∧ Represents a' v' ∧ y = .ok out) ∨
      (∃ e, y = .error e) ∧ v' = v := by
  cases op with
  | add raw =>
    cases hn : Tickers.normalize raw with
    | error f => simp [Operation.plan, hn] at hplan
    | ok t =>
      simp only [Operation.plan, hn, ok_bind, pure_eq_ok, Except.ok.injEq] at hplan
      split_ifs at hplan with hc
      obtain rfl := Sum.inr.inj hplan
      obtain ⟨w, x, hread, h⟩ := ends_bind.mp h
      obtain ⟨rfl, rfl⟩ := ends_tickers ha hread
      rw [Prog.orRaise_ok_bind] at h
      simp only [Operation.apply, hn, ok_bind, pure_eq_ok, hc, ↓reduceDIte]
      by_cases hnew : t ∈ a.tickers
      · rw [if_pos (List.contains_iff_mem.mpr hnew)] at h
        obtain ⟨rfl, rfl⟩ := (ends_ret _).mp h
        exact .inl ⟨_, a, dif_pos hnew, ha, rfl⟩
      · rw [if_neg (by simpa using hnew)] at h
        by_cases hroom : a.tickers.length < maxTickers
        · rw [if_neg (Nat.not_le.mpr hroom)] at h
          obtain ⟨w, x, hstore, hrest⟩ := ends_bind.mp h
          rcases ends_store hstore with ⟨rfl, rfl⟩ | ⟨⟨e, rfl⟩, rfl⟩
          · obtain ⟨rfl, rfl⟩ := (ends_ret _).mp hrest
            exact .inl ⟨_, _, (dif_neg hnew).trans (dif_pos hroom),
              ha.with_list (a.roster.append t hc hnew hroom), rfl⟩
          · obtain ⟨rfl, rfl⟩ := (ends_raise _).mp hrest
            exact .inr ⟨⟨e, rfl⟩, rfl⟩
        · rw [if_pos (Nat.not_lt.mp hroom)] at h
          obtain ⟨rfl, rfl⟩ := (ends_ret _).mp h
          exact .inl ⟨_, a, (dif_neg hnew).trans (dif_neg hroom), ha, rfl⟩
  | remove raw =>
    cases hn : Tickers.normalize raw with
    | error f => simp [Operation.plan, hn] at hplan
    | ok t =>
      simp only [Operation.plan, hn, ok_bind, pure_eq_ok, Except.ok.injEq] at hplan
      obtain rfl := Sum.inr.inj hplan
      obtain ⟨w, x, hread, h⟩ := ends_bind.mp h
      obtain ⟨rfl, rfl⟩ := ends_tickers ha hread
      rw [Prog.orRaise_ok_bind] at h
      simp only [Operation.apply, hn, ok_bind, pure_eq_ok]
      by_cases hmem : t ∈ a.tickers
      · rw [if_neg (by simpa using hmem)] at h
        obtain ⟨w, x, hstore, hrest⟩ := ends_bind.mp h
        rcases ends_store hstore with ⟨rfl, rfl⟩ | ⟨⟨e, rfl⟩, rfl⟩
        · obtain ⟨rfl, rfl⟩ := (ends_ret _).mp hrest
          exact .inl ⟨_, _, if_pos hmem, ha.with_list (a.roster.drop t), rfl⟩
        · obtain ⟨rfl, rfl⟩ := (ends_raise _).mp hrest
          exact .inr ⟨⟨e, rfl⟩, rfl⟩
      · rw [if_pos (by simpa using hmem)] at h
        obtain ⟨rfl, rfl⟩ := (ends_ret _).mp h
        exact .inl ⟨_, a, if_neg hmem, ha, rfl⟩
  | setPaused b =>
    obtain rfl := Sum.inr.inj (Except.ok.inj hplan)
    obtain ⟨w, x, hset, hrest⟩ := ends_bind.mp h
    rcases ends_setPaused hset with ⟨rfl, rfl⟩ | ⟨⟨e, rfl⟩, rfl⟩
    · obtain ⟨rfl, rfl⟩ := (ends_ret _).mp hrest
      exact .inl ⟨_, _, rfl, ha.with_flag b, rfl⟩
    · obtain ⟨rfl, rfl⟩ := (ends_raise _).mp hrest
      exact .inr ⟨⟨e, rfl⟩, rfl⟩

variable {ss : List (Section GAS JSError (Option Outcome) ι (Option JSString × Option JSString))}
  {x : Except JSError (Option Outcome)}

/-- What an execution comes to without the lock. -/
def Unlocked (op : Operation) (x : Except JSError (Option Outcome)) : Prop :=
  x = .ok (some .busy) ∨
    (∃ t, x = .ok (some (.invalid t)) ∧ ∀ a, op.apply a = .ok (.invalid t, a)) ∨
    ∃ f, x = .error (Platform.faultError f) ∧ ∀ a, op.apply a = .error f

theorem finished_mutate {op : Operation}
    (hclosed : ∀ t ∈ ss, t.Closed (poolEffect tasks) anyStore stored)
    (h : Finished (poolEffect tasks) anyStore i (Task.mutate op).program ss x) :
    (ss = [] ∧ Unlocked op x) ∨ ∃ t mutate y, ss = [t] ∧ op.plan = .ok (.inr mutate) ∧
      Ends (poolEffect tasks) anyStore stored i t.entry mutate t.exit y ∧ x = y.map some := by
  rw [Task.program, Operation.program_eq] at h
  cases hp : op.plan with
  | error f =>
    rw [hp] at h
    obtain ⟨hss, rfl⟩ := finished_orRaise (y := .error (Platform.faultError f)) h
    exact .inl ⟨hss, .inr (.inr ⟨f, rfl, Operation.plan_error hp⟩)⟩
  | ok step =>
    rw [hp] at h
    cases step with
    | inl out =>
      obtain ⟨hss, rfl⟩ := finished_orRaise (y := .ok (some out)) h
      obtain ⟨t, rfl, happly⟩ := Operation.plan_inl hp
      exact .inl ⟨hss, .inr (.inl ⟨t, rfl, happly⟩)⟩
    | inr mutate =>
      change Finished (poolEffect tasks) anyStore i ((Locks.withScriptLock lockTimeoutMs mutate
        (.ret Outcome.busy)).bind fun out => .ret (some out)) ss x at h
      rw [withScriptLock_eq] at h
      rcases Finished.locked (Operation.lockless_plan hp) hclosed h with
        hbusy | ⟨t, rest, y, rfl, -, hbody, hrest⟩
      · rw [Prog.bind_assoc] at hbusy
        obtain ⟨y, hlog, hbusy⟩ := Finished.bind (lockless_console _ _) hbusy
        obtain ⟨-, rfl⟩ := ends_console (fun _ _ _ h => h.2) hlog
        obtain ⟨hss, rfl⟩ := finished_orRaise (y := .ok (some Outcome.busy)) hbusy
        exact .inl ⟨hss, .inl rfl⟩
      · have hmap : (Prog.orRaise y : Action Outcome).bind (fun out => .ret (some out)) =
            Prog.orRaise (y.map some) := by cases y <;> rfl
        rw [hmap] at hrest
        obtain ⟨rfl, rfl⟩ := finished_orRaise hrest
        exact .inr ⟨t, mutate, y, rfl, rfl, hbody, rfl⟩

/-! ## In the order of the lock -/

/-- An operation that has ended well takes effect where it took the lock; all else changes nothing. -/
def settle (tasks : ι → Task) (result : ι → Except JSError (Option Outcome)) (a : Tracked) (i : ι) :
    Tracked :=
  match tasks i, result i with
  | .mutate op, .ok _ =>
    match op.apply a with
    | .ok (_, a') => a'
    | .error _ => a
  | _, _ => a

/-- The abstract watchlist after the executions of a list have had the lock in turn. -/
def after (tasks : ι → Task) (result : ι → Except JSError (Option Outcome)) (a : Tracked)
    (order : List ι) : Tracked := order.foldl (settle tasks result) a

/-- From one abstract state to another, the operation did what it does alone, or threw and changed
nothing. -/
def Did (op : Operation) (result : Except JSError (Option Outcome)) (a a' : Tracked) : Prop :=
  (∃ out, op.apply a = .ok (out, a') ∧ result = .ok (some out) ∧
    ∀ ts ∈ out.tickers?, ts = a'.tickers) ∨ (∃ e, result = .error e) ∧ a' = a

variable {result : ι → Except JSError (Option Outcome)} {a : Tracked}

omit [Platform] in
theorem after_concat (order : List ι) (j : ι) :
    after tasks result a (order ++ [j]) = settle tasks result (after tasks result a order) j := by
  rw [after, List.foldl_append]
  rfl

theorem settle_mutate {op : Operation} {mutate : Action Outcome} {y : Except JSError Outcome}
    (hi : tasks i = .mutate op) (hplan : op.plan = .ok (.inr mutate)) (ha : Represents a v)
    (hbody : Ends (poolEffect tasks) anyStore stored i v mutate v' y)
    (hresult : result i = y.map some) :
    Represents (settle tasks result a i) v' ∧ Did op (result i) a (settle tasks result a i) := by
  rcases ends_plan hplan ha hbody with ⟨out, a', happly, ha', rfl⟩ | ⟨⟨e, rfl⟩, rfl⟩
  · have hsettle : settle tasks result a i = a' := by
      rw [settle, hi, hresult]
      simp [Except.map, happly]
    rw [hsettle]
    exact ⟨ha', .inl ⟨out, happly, hresult, Operation.apply_tickers happly⟩⟩
  · have hsettle : settle tasks result a i = a := by
      rw [settle, hi, hresult]
      rfl
    rw [hsettle]
    exact ⟨ha, .inr ⟨⟨e, hresult⟩, rfl⟩⟩

omit [Platform] in
theorem settle_bystander {b : Bystander} (hi : tasks i = .bystander b) :
    settle tasks result a i = a := by
  rw [settle, hi]

theorem chain_settles {v₀ : Option JSString × Option JSString}
    (h : Chain (poolEffect tasks) anyStore stored v₀ ss v) (ha : Represents a v₀)
    (hown : ∀ t ∈ ss, ∀ op, tasks t.tid = .mutate op → ∃ mutate y,
      op.plan = .ok (.inr mutate) ∧ Ends (poolEffect tasks) anyStore stored t.tid t.entry mutate t.exit y ∧
        result t.tid = y.map some) :
    Represents (after tasks result a (ss.map (·.tid))) v ∧
      ∀ k (hk : k < ss.length) op, tasks ss[k].tid = .mutate op →
        Did op (result ss[k].tid) (after tasks result a ((ss.map (·.tid)).take k))
          (after tasks result a ((ss.map (·.tid)).take (k + 1))) := by
  induction h with
  | nil => exact ⟨ha, by simp⟩
  | @snoc ss t front closed ih =>
    obtain ⟨hrep, hdid⟩ := ih fun u hu => hown u (List.mem_append_left _ hu)
    have hstep : Represents (settle tasks result (after tasks result a (ss.map (·.tid))) t.tid) t.exit ∧
        ∀ op, tasks t.tid = .mutate op → Did op (result t.tid)
          (after tasks result a (ss.map (·.tid)))
          (settle tasks result (after tasks result a (ss.map (·.tid))) t.tid) := by
      cases ht : tasks t.tid with
      | mutate op =>
        obtain ⟨mutate, y, hplan, hbody, hresult⟩ := hown t (by simp) op ht
        obtain ⟨hrep', hdid'⟩ := settle_mutate ht hplan hrep hbody hresult
        exact ⟨hrep', by rintro _ ⟨⟩; exact hdid'⟩
      | bystander b =>
        obtain ⟨k, hinside, -⟩ := closed
        have hsame : t.exit = t.entry :=
          hinside.view_eq fun _ _ _ _ heff => poolEffect_bystander ht heff
        rw [settle_bystander ht, hsame]
        exact ⟨hrep, by rintro _ ⟨⟩⟩
    rw [List.map_append, List.map_singleton, after_concat]
    refine ⟨hstep.1, fun k hk op hop => ?_⟩
    rw [List.length_append, List.length_singleton] at hk
    rcases Nat.lt_or_ge k ss.length with hlt | hge
    · rw [List.getElem_append_left hlt] at hop ⊢
      rw [List.take_append_of_le_length (by simpa using hlt.le),
        List.take_append_of_le_length (by simpa using hlt)]
      exact hdid k hlt op hop
    · obtain rfl : k = ss.length := by omega
      rw [List.getElem_append_right le_rfl] at hop ⊢
      rw [List.take_left' (by simp), List.take_of_length_le (by simp), after_concat]
      simpa using hstep.2 op (by simpa using hop)

end Sections

/-- **No update of the watchlist is lost.** However executions interleave, with locks that time out and
writes that fail, the outcomes and the final watchlist are those of the operations that had the lock,
one after another in its order, on the abstract watchlist; the others were refused without it. And at
no time does an execution release the lock that it does not hold, or end while it holds it. -/
theorem mutations_serialized [Platform] {ι : Type} [DecidableEq ι] (tasks : ι → Task) (s : Store)
    (a : Tracked) (ha : Represents a (stored s)) (p : Pool GAS JSError (Option Outcome) ι Store)
    (hruns : Pool.Runs (storeEffect True) (Pool.start (fun i => (tasks i).program) s) p)
    (result : ι → Except JSError (Option Outcome))
    (hend : ∀ i, p.thread i = Prog.orRaise (result i)) :
    (∀ k (hk : k < p.order.length) op, tasks p.order[k] = .mutate op →
      Did op (result p.order[k]) (after tasks result a (p.order.take k))
        (after tasks result a (p.order.take (k + 1)))) ∧
    (∀ i op, tasks i = .mutate op → p.order.count i ≤ 1 ∧
      (i ∉ p.order → Unlocked op (result i))) ∧
    (∀ env, (tickers.run host ⟨p.data, env⟩).outcome = .ok (after tasks result a p.order).tickers ∧
      (isPaused.run host ⟨p.data, env⟩).outcome = .ok (after tasks result a p.order).paused) ∧
    ∀ q i, Pool.Runs (storeEffect True) (Pool.start (fun i => (tasks i).program) s) q →
      (∀ k, q.thread i = .perform .releaseLock k → q.holder = some i) ∧
        ∀ x, q.thread i = Prog.orRaise x → q.holder ≠ some i := by
  have hserial : ∀ q, Pool.Runs (storeEffect True) (Pool.start (fun i => (tasks i).program) s) q →
      ∃ ss, Serial (poolEffect tasks) anyStore stored writes (fun i => (tasks i).program) (stored s)
        ss q := fun q hq =>
    serialized (poolEffect tasks) anyStore stored writes (fun _ _ _ _ _ _ _ => trivial)
      (fun _ _ _ _ _ => poolEffect_frame) s trivial (fun i => (tasks i).locked_program)
      (Pool.Runs.within (fun i => (tasks i).within_program) hq)
  obtain ⟨ss, hss⟩ := hserial p hruns
  obtain ⟨hchain, horder, htrail⟩ := hss.complete fun i => by
    rw [hend i]
    cases result i with
    | ok out => exact .inl ⟨out, rfl⟩
    | error e => exact .inr ⟨e, rfl⟩
  have hmine : ∀ i op, tasks i = .mutate op → (mine i ss = [] ∧ Unlocked op (result i)) ∨
      ∃ t mutate y, mine i ss = [t] ∧ op.plan = .ok (.inr mutate) ∧
        Ends (poolEffect tasks) anyStore stored i t.entry mutate t.exit y ∧
          result i = y.map some := by
    intro i op hi
    have h := htrail i
    rw [hend i, hi] at h
    exact finished_mutate (fun u hu => hchain.closed u (mem_mine.mp hu).1) h
  obtain ⟨hrep, hdid⟩ := chain_settles hchain ha fun t ht op hop => by
    obtain ⟨hnil, -⟩ | ⟨u, mutate, y, hu, hplan, hbody, hresult⟩ := hmine t.tid op hop
    · have hmem := mem_mine.mpr ⟨ht, rfl⟩
      simp [hnil] at hmem
    · obtain rfl : t = u := by simpa [hu] using mem_mine.mpr ⟨ht, rfl⟩
      exact ⟨mutate, y, hplan, hbody, hresult⟩
  rw [← horder] at hrep hdid
  have hlength : p.order.length = ss.length := by rw [horder, List.length_map]
  have hget : ∀ k (hk : k < p.order.length) (hk' : k < ss.length), p.order[k] = ss[k].tid := by
    intro k hk hk'
    simp [horder]
  refine ⟨fun k hk op hop => ?_, fun i op hi => ?_, fun env => ⟨?_, ?_⟩, fun q i hq => ?_⟩
  · rw [hget k hk (hlength ▸ hk)] at hop ⊢
    exact hdid k (hlength ▸ hk) op hop
  · rw [horder, count_tid]
    obtain ⟨hnil, hunlocked⟩ | ⟨t, -, -, ht, -⟩ := hmine i op hi
    · exact ⟨by simp [hnil], fun _ => hunlocked⟩
    · refine ⟨by simp [ht], fun hnot => absurd ?_ hnot⟩
      exact List.mem_map.mpr ⟨t, mem_mine.mp (by rw [ht]; exact List.mem_singleton_self t)⟩
  · rw [run_tickers (w := ⟨p.data, env⟩) hrep]
  · rw [run_isPaused (w := ⟨p.data, env⟩) hrep]
  · obtain ⟨ss', hss'⟩ := hserial q hq
    obtain ⟨hrelease, hret, hraise⟩ := hss'.lock_discipline (i := i)
    refine ⟨hrelease, fun x hx => ?_⟩
    cases x with
    | ok out => exact hret out hx
    | error e => exact hraise e hx

section
open AppsScript

def sampleTasks : Fin 3 → Task
  | 0 => .mutate (.add (.str (js " tsla ")))
  | 1 => .mutate (.remove (.str (js "gld")))
  | 2 => .bystander .reader

-- The numerals of the schedule name this instance instead of a proof of their own.
local instance neZero_three : NeZero 3 := ⟨by decide⟩

def samplePool : Pool GAS JSError (Option Outcome) (Fin 3) Store :=
  [(0, true), (2, true), (0, true), (1, false), (0, true), (0, true), (2, true), (1, true), (1, true)].foldl
    (Pool.play sampleAnswer) (Pool.start (fun i => (sampleTasks i).program) sampleStore)

def sampleResult : Fin 3 → Except JSError (Option Outcome)
  | 0 => .ok (some (.added (js "TSLA") [js "SPY", js "GLD", js "SLV", js "TSLA"]))
  | 1 => .ok (some .busy)
  | 2 => .ok none

theorem storeEffect_answer {ι : Type} (i : ι) (o : Op) (s : Store) :
    storeEffect True i o s (sampleAnswer i o s).1 (sampleAnswer i o s).2 := by
  cases o with
  | setProperty k v => exact .inl ⟨rfl, rfl⟩
  | getProperty k => exact ⟨rfl, rfl⟩
  | fetch _ | sleep _ | now | console _ _ => rfl

theorem mutations_serialized_busy : samplePool.order = [0] ∧
    (tickers.run host ⟨samplePool.data, sampleEnv⟩).outcome =
      .ok [js "SPY", js "GLD", js "SLV", js "TSLA"] := by
  have horder : samplePool.order = [0] := by decide +kernel
  have hend : ∀ i, samplePool.outcome? i = some (sampleResult i) := by decide +kernel
  have h := mutations_serialized sampleTasks sampleStore .initial (represents_initial rfl rfl)
    samplePool (Pool.runs_play storeEffect_answer _) sampleResult
    fun i => Pool.outcome?_eq_some.mp (hend i)
  refine ⟨horder, (h.2.2.1 sampleEnv).1.trans ?_⟩
  rw [horder]
  decide +kernel

end

end Watchlist
end Spazito
