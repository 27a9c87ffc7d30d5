import Spazito.Platform
import Spazito.ScriptRules

set_option autoImplicit false

/-!
# Scheduler.js: the triggers of the daily alert

The trigger service of the platform, where any call may fail, and the installation.
-/
namespace Spazito
open Ecma Script

/-! ## ScriptApp -/

inductive WeekDay
  | monday
  | tuesday
  | wednesday
  | thursday
  | friday
  | saturday
  | sunday
  deriving DecidableEq

/-- What a trigger runs, and when; a trigger that is not weekly has no day. -/
structure TriggerSpec where
  handlerFunction : JSString
  day : Option WeekDay
  hour : Option ℕ
  deriving DecidableEq

structure Trigger where
  uid : JSString
  spec : TriggerSpec
  deriving DecidableEq

inductive TriggerCall
  | getProjectTriggers
  | getHandlerFunction (t : Trigger)
  | deleteTrigger (t : Trigger)
  | newTrigger (handlerFunction : JSString)
  | timeBased (b : TriggerSpec)
  | onWeekDay (b : TriggerSpec) (day : WeekDay)
  | atHour (b : TriggerSpec) (hour : ℕ)
  | create (b : TriggerSpec)

def TriggerCall.Value : TriggerCall → Type
  | getProjectTriggers => List Trigger
  | getHandlerFunction _ => JSString
  | deleteTrigger _ => Unit
  | newTrigger _ | timeBased _ | onWeekDay _ _ | atHour _ _ => TriggerSpec
  | create _ => Trigger

inductive TriggerOp
  | call (c : TriggerCall)
  | console (text : JSString)

def TriggerOp.Ret : TriggerOp → Type
  | call c => Except JSError c.Value
  | console _ => Unit

abbrev ScriptApp : Signature := ⟨TriggerOp, TriggerOp.Ret⟩

def TriggerCall.perform (uid : JSString) (triggers : List Trigger) :
    (c : TriggerCall) → c.Value × List Trigger
  | getProjectTriggers => (triggers, triggers)
  | getHandlerFunction t => (t.spec.handlerFunction, triggers)
  | deleteTrigger t => ((), triggers.erase t)
  | newTrigger handlerFunction => (⟨handlerFunction, none, none⟩, triggers)
  | timeBased b => (b, triggers)
  | onWeekDay b day => ({ b with day := some day }, triggers)
  | atHour b hour => ({ b with hour := some hour }, triggers)
  | create b => (⟨uid, b⟩, triggers ++ [⟨uid, b⟩])

/-- How a call goes: one that throws may have had its effect all the same. -/
structure Answer where
  failure : Option JSError
  applied : Bool
  uid : JSString

/-- What the caller gets and what becomes of the list, if the call would give `r` and all goes well. -/
def Answer.result {α : Type} (a : Answer) (triggers : List Trigger) (r : α × List Trigger) :
    Except JSError α × List Trigger :=
  match a.failure with
  | none => (.ok r.1, r.2)
  | some e => (.error e, if a.applied then r.2 else triggers)

structure Project where
  triggers : List Trigger
  made : ℕ

def scriptApp (answers : ℕ → Answer) : Handler ScriptApp Project
  | .op (.call c), p =>
    let a := answers p.made
    let r := a.result p.triggers (c.perform a.uid p.triggers)
    (r.1, ⟨r.2, p.made + 1⟩)
  | .op (.console _), p => ((), p)
  | .waitLock _, p => (true, p)
  | .releaseLock, p => ((), p)

abbrev Setup := Prog ScriptApp JSError

def call (c : TriggerCall) : Setup c.Value := do
  Prog.orRaise (← Prog.op (S := ScriptApp) (.call c))

def getProjectTriggers : Setup (List Trigger) := call .getProjectTriggers
def getHandlerFunction (t : Trigger) : Setup JSString := call (.getHandlerFunction t)
def deleteTrigger (t : Trigger) : Setup Unit := call (.deleteTrigger t)
def newTrigger (handlerFunction : JSString) : Setup TriggerSpec := call (.newTrigger handlerFunction)
def timeBased (b : TriggerSpec) : Setup TriggerSpec := call (.timeBased b)
def onWeekDay (day : WeekDay) (b : TriggerSpec) : Setup TriggerSpec := call (.onWeekDay b day)
def atHour (hour : ℕ) (b : TriggerSpec) : Setup TriggerSpec := call (.atHour b hour)
def create (b : TriggerSpec) : Setup Trigger := call (.create b)
def announce (text : JSString) : Setup Unit := Prog.op (S := ScriptApp) (.console text)

/-! ## The installation -/

namespace Scheduler

def alertHour : ℕ := 17

def entryPoint : JSString := js "runDailyAlert"

def weekdays : List WeekDay := [.monday, .tuesday, .wednesday, .thursday, .friday]

/-- The body of the loop over the existing triggers. -/
def clear (t : Trigger) : Setup Unit := do
  if (← getHandlerFunction t) = entryPoint then deleteTrigger t else return ()

def clearAll : List Trigger → Setup Unit
  | [] => return ()
  | t :: rest => do
    clear t
    clearAll rest

/-- The body of the loop over the days. -/
def createFor (day : WeekDay) : Setup Unit := do
  let _ ← newTrigger entryPoint >>= timeBased >>= onWeekDay day >>= atHour alertHour >>= create

def createAll : List WeekDay → Setup Unit
  | [] => return ()
  | day :: rest => do
    createFor day
    createAll rest

def countInstalled : List Trigger → Setup ℕ
  | [] => return 0
  | t :: rest => do
    let name ← getHandlerFunction t
    let count ← countInstalled rest
    return if name = entryPoint then count + 1 else count

/-- The verification at the end. -/
def conclude (installed : ℕ) : Setup Unit :=
  if installed ≠ weekdays.length then
    throw (newError (js "Trigger install ended with " ++ decimal installed ++
      js " runDailyAlert trigger(s) instead of " ++ decimal weekdays.length ++
      js " — re-run createTrigger (it is safe to re-run)."))
  else
    announce (js "Installed 5 weekly triggers: runDailyAlert, Mon-Fri, in the " ++ decimal alertHour ++
      js ":00 hour (script timezone).")

def installTrigger : Setup Unit := do
  clearAll (← getProjectTriggers)
  createAll weekdays
  conclude (← countInstalled (← getProjectTriggers))

/-! ## What each step leaves -/

def isOwn (t : Trigger) : Bool := t.spec.handlerFunction = entryPoint

def others (triggers : List Trigger) : List Trigger := triggers.filter fun t => !isOwn t

variable {answers : ℕ → Answer} {before : List Trigger}

/-- No call has failed yet, the triggers of other functions are as before, and all of them are as
`P` tells. -/
structure Clean (answers : ℕ → Answer) (before : List Trigger) (P : List Trigger → Prop)
    (p : Project) : Prop where
  calls : ∀ i < p.made, (answers i).failure = none
  others : others p.triggers = others before
  triggers : P p.triggers

/-- A call has failed; the triggers of other functions are as before. -/
structure Failed (answers : ℕ → Answer) (before : List Trigger) (p : Project) : Prop where
  calls : ∃ i < p.made, (answers i).failure ≠ none
  others : others p.triggers = others before

theorem run_call (c : TriggerCall) (p : Project) : (call c).run (scriptApp answers) p =
    let a := answers p.made
    let r := a.result p.triggers (c.perform a.uid p.triggers)
    ⟨r.1, ⟨r.2, p.made + 1⟩, [.op (.call c)]⟩ := by
  change (let r := (answers p.made).result p.triggers (c.perform (answers p.made).uid p.triggers)
    let q := (Prog.orRaise r.1 : Setup c.Value).run (scriptApp answers) ⟨r.2, p.made + 1⟩
    (⟨q.outcome, q.state, _ :: q.performed⟩ : Result ScriptApp JSError c.Value Project)) = _
  dsimp only
  cases ((answers p.made).result p.triggers (c.perform (answers p.made).uid p.triggers)).1 <;> rfl

theorem triple_call {c : TriggerCall} {P : List Trigger → Prop} {R : c.Value → List Trigger → Prop}
    (h : ∀ uid triggers, P triggers → others triggers = others before →
      others (c.perform uid triggers).2 = others before ∧
        R (c.perform uid triggers).1 (c.perform uid triggers).2) :
    (call c).Triple (scriptApp answers) (Clean answers before P)
      (fun v => Clean answers before (R v)) (Failed answers before) := by
  intro p hp
  obtain ⟨hothers, hR⟩ := h (answers p.made).uid p.triggers hp.triggers hp.others
  rw [run_call]
  unfold Answer.result
  dsimp only
  cases hf : (answers p.made).failure with
  | none =>
    refine ⟨?_, by rintro _ ⟨⟩⟩
    rintro _ ⟨⟩
    refine ⟨fun i hi => ?_, hothers, hR⟩
    rcases Nat.lt_succ_iff_lt_or_eq.mp hi with hi | rfl
    · exact hp.calls i hi
    · exact hf
  | some e =>
    refine ⟨by rintro _ ⟨⟩, fun _ _ => ⟨⟨p.made, Nat.lt_succ_self _, by simp [hf]⟩, ?_⟩⟩
    dsimp only
    split_ifs
    · exact hothers
    · exact hp.others

theorem triple_read {c : TriggerCall} {P : List Trigger → Prop} {v : List Trigger → c.Value}
    (h : ∀ uid triggers, c.perform uid triggers = (v triggers, triggers)) :
    (call c).Triple (scriptApp answers) (Clean answers before P)
      (fun x => Clean answers before fun triggers => P triggers ∧ x = v triggers)
      (Failed answers before) :=
  triple_call fun uid triggers hP hothers => by
    rw [h]
    exact ⟨hothers, hP, rfl⟩

theorem Clean.mono {P Q : List Trigger → Prop} {p : Project} (hp : Clean answers before P p)
    (h : ∀ triggers, P triggers → Q triggers) : Clean answers before Q p :=
  ⟨hp.calls, hp.others, h _ hp.triggers⟩

theorem others_append (ts us : List Trigger) : others (ts ++ us) = others ts ++ others us :=
  List.filter_append ..

theorem others_of_own {ts : List Trigger} (h : ∀ t ∈ ts, isOwn t = true) : others ts = [] := by
  refine List.filter_eq_nil_iff.mpr fun t ht => ?_
  simp [h t ht]

theorem isOwn_of_others {kept : List Trigger} (h : others kept = kept) {t : Trigger} (ht : t ∈ kept) :
    isOwn t = false := by
  have hall := List.filter_eq_self.mp h t ht
  simpa using hall

theorem triple_getHandlerFunction (t : Trigger) {P : List Trigger → Prop} :
    (getHandlerFunction t).Triple (scriptApp answers) (Clean answers before P)
      (fun name => Clean answers before fun triggers => P triggers ∧ name = t.spec.handlerFunction)
      (Failed answers before) := triple_read fun _ _ => rfl

theorem triple_getProjectTriggers {P : List Trigger → Prop} :
    getProjectTriggers.Triple (scriptApp answers) (Clean answers before P)
      (fun ts => Clean answers before fun triggers => P triggers ∧ ts = triggers)
      (Failed answers before) := triple_read fun _ _ => rfl

theorem triple_clear (t : Trigger) (kept rest : List Trigger) (hkept : others kept = kept) :
    (clear t).Triple (scriptApp answers) (Clean answers before (· = kept ++ t :: rest))
      (fun _ => Clean answers before (· = kept ++ others [t] ++ rest)) (Failed answers before) := by
  refine (triple_getHandlerFunction t).bind fun name => ?_
  by_cases hname : name = entryPoint
  · rw [if_pos hname]
    refine triple_call fun uid triggers hp hothers => ?_
    obtain ⟨rfl, rfl⟩ := hp
    have hown : isOwn t = true := by simpa [isOwn] using hname
    have hfar : t ∉ kept := fun ht => by simp [isOwn_of_others hkept ht] at hown
    have herase : (kept ++ t :: rest).erase t = kept ++ rest := by
      rw [List.erase_append_right _ hfar, List.erase_cons_head]
    have hnone : others [t] = [] := others_of_own (by simpa using hown)
    change others ((kept ++ t :: rest).erase t) = _ ∧ (kept ++ t :: rest).erase t = _
    rw [herase, hnone, List.append_nil]
    refine ⟨?_, rfl⟩
    rw [← hothers, others_append, others_append, ← List.singleton_append, others_append, hnone]
    rfl
  · rw [if_neg hname]
    refine .ret fun p hp => hp.mono fun triggers htriggers => ?_
    obtain ⟨rfl, rfl⟩ := htriggers
    have hother : others [t] = [t] := by
      simp [others, isOwn, hname]
    rw [hother, List.append_assoc, List.singleton_append]

theorem others_others (ts : List Trigger) : others (others ts) = others ts := by
  simp [others]

theorem triple_clearAll (rest kept : List Trigger) (hkept : others kept = kept) :
    (clearAll rest).Triple (scriptApp answers) (Clean answers before (· = kept ++ rest))
      (fun _ => Clean answers before (· = kept ++ others rest)) (Failed answers before) := by
  induction rest generalizing kept with
  | nil => exact .ret fun p hp => hp
  | cons t rest ih =>
    refine (triple_clear t kept rest hkept).bind fun _ => ?_
    have hnext := ih (kept ++ others [t]) (by rw [others_append, hkept, others_others])
    rwa [List.append_assoc _ (others [t]) (others rest), ← others_append] at hnext

def Added (kept : List Trigger) (specs : List TriggerSpec) (triggers : List Trigger) : Prop :=
  ∃ new, triggers = kept ++ new ∧ new.map Trigger.spec = specs

def weekly (day : WeekDay) : TriggerSpec := ⟨entryPoint, some day, some alertHour⟩

theorem triple_createFor (day : WeekDay) (kept : List Trigger) (specs : List TriggerSpec) :
    (createFor day).Triple (scriptApp answers) (Clean answers before (Added kept specs))
      (fun _ => Clean answers before (Added kept (specs ++ [weekly day]))) (Failed answers before) := by
  let stage (b : TriggerSpec) (x : TriggerSpec) : Project → Prop :=
    Clean answers before fun triggers => Added kept specs triggers ∧ x = b
  have hnew : (newTrigger entryPoint).Triple (scriptApp answers)
      (Clean answers before (Added kept specs)) (stage ⟨entryPoint, none, none⟩)
      (Failed answers before) := triple_read fun _ _ => rfl
  have htimed (b : TriggerSpec) : (timeBased b).Triple (scriptApp answers)
      (stage ⟨entryPoint, none, none⟩ b) (stage ⟨entryPoint, none, none⟩) (Failed answers before) :=
    triple_call fun _ _ h hothers => ⟨hothers, h⟩
  have hday (b : TriggerSpec) : (onWeekDay day b).Triple (scriptApp answers)
      (stage ⟨entryPoint, none, none⟩ b) (stage ⟨entryPoint, some day, none⟩)
      (Failed answers before) :=
    triple_call fun _ _ h hothers => ⟨hothers, h.1, by rw [h.2]; rfl⟩
  have hhour (b : TriggerSpec) : (atHour alertHour b).Triple (scriptApp answers)
      (stage ⟨entryPoint, some day, none⟩ b) (stage (weekly day)) (Failed answers before) :=
    triple_call fun _ _ h hothers => ⟨hothers, h.1, by rw [h.2]; rfl⟩
  have hcreate (b : TriggerSpec) : (create b).Triple (scriptApp answers) (stage (weekly day) b)
      (fun _ => Clean answers before (Added kept (specs ++ [weekly day]))) (Failed answers before) := by
    refine triple_call fun uid triggers h hothers => ?_
    obtain ⟨⟨new, rfl, rfl⟩, rfl⟩ := h
    have hown : others [⟨uid, weekly day⟩] = [] := others_of_own (by simp [isOwn, weekly])
    refine ⟨?_, new ++ [⟨uid, weekly day⟩], ?_, ?_⟩
    · change others (kept ++ new ++ [_]) = _
      rw [others_append, hown, List.append_nil, hothers]
    · exact List.append_assoc ..
    · simp
  exact ((((hnew.bind htimed).bind hday).bind hhour).bind hcreate).bind fun _ => .ret fun p hp => hp

theorem triple_createAll (days : List WeekDay) (kept : List Trigger) (specs : List TriggerSpec) :
    (createAll days).Triple (scriptApp answers) (Clean answers before (Added kept specs))
      (fun _ => Clean answers before (Added kept (specs ++ days.map weekly)))
      (Failed answers before) := by
  induction days generalizing specs with
  | nil =>
    rw [List.map_nil, List.append_nil]
    exact .ret fun p hp => hp
  | cons day rest ih =>
    refine (triple_createFor day kept specs).bind fun _ => ?_
    have hnext := ih (specs ++ [weekly day])
    rwa [List.append_assoc, List.singleton_append] at hnext

theorem triple_countInstalled (ts : List Trigger) (P : List Trigger → Prop) :
    (countInstalled ts).Triple (scriptApp answers) (Clean answers before P)
      (fun n => Clean answers before fun triggers => P triggers ∧ n = ts.countP isOwn)
      (Failed answers before) := by
  induction ts generalizing P with
  | nil => exact .ret fun p hp => hp.mono fun _ h => ⟨h, rfl⟩
  | cons t rest ih =>
    refine (triple_getHandlerFunction t).bind fun name =>
      (ih _).bind fun count => .ret fun p hp => hp.mono fun triggers h => ?_
    obtain ⟨⟨hP, rfl⟩, rfl⟩ := h
    refine ⟨hP, ?_⟩
    rw [List.countP_cons]
    simp only [isOwn, decide_eq_true_eq]
    split_ifs <;> rfl

theorem triple_conclude (P : List Trigger → Prop) (installed : ℕ) :
    (conclude installed).Triple (scriptApp answers)
      (Clean answers before fun triggers => P triggers ∧ installed = weekdays.length)
      (fun _ => Clean answers before P) (Failed answers before) := by
  unfold conclude
  by_cases hcount : installed ≠ weekdays.length
  · rw [if_pos hcount]
    exact .raise fun p (hp : Clean _ _ _ p) => absurd hp.triggers.2 hcount
  · rw [if_neg hcount]
    intro p hp
    refine ⟨fun _ _ => hp.mono fun _ h => h.1, ?_⟩
    rintro _ ⟨⟩

theorem own_added {kept triggers : List Trigger} (hkept : others kept = kept) {days : List WeekDay}
    (h : Added kept (days.map weekly) triggers) :
    (triggers.filter isOwn).map Trigger.spec = days.map weekly := by
  obtain ⟨new, rfl, hnew⟩ := h
  have hnone : kept.filter isOwn = [] :=
    List.filter_eq_nil_iff.mpr fun t ht => by simp [isOwn_of_others hkept ht]
  have hall : new.filter isOwn = new := by
    refine List.filter_eq_self.mpr fun t ht => ?_
    have hspec : t.spec ∈ days.map weekly := hnew ▸ List.mem_map_of_mem ht
    obtain ⟨day, -, hday⟩ := List.mem_map.mp hspec
    simp [isOwn, ← hday, weekly]
  rw [List.filter_append, hnone, hall, List.nil_append, hnew]

/-- An installation that fails has had a failing call; one that does not leaves the five triggers. -/
theorem triple_installTrigger (answers : ℕ → Answer) (before : List Trigger) :
    installTrigger.Triple (scriptApp answers)
    (Clean answers before (· = before))
    (fun _ => Clean answers before (Added (others before) (weekdays.map weekly)))
    (Failed answers before) := by
  refine triple_getProjectTriggers.bind fun existing => ?_
  have hclear : (clearAll existing).Triple (scriptApp answers)
      (Clean answers before fun triggers => triggers = before ∧ existing = triggers)
      (fun _ => Clean answers before (Added (others before) [])) (Failed answers before) := by
    by_cases hexisting : existing = before
    · refine (triple_clearAll existing [] rfl).mono (fun p hp => hp.mono ?_) (fun _ p hp =>
        hp.mono ?_) fun _ h => h
      · rintro triggers ⟨-, h⟩
        exact h.symm
      · rintro triggers rfl
        exact ⟨[], by simp [hexisting], rfl⟩
    · exact fun p hp => absurd (hp.triggers.2.trans hp.triggers.1) hexisting
  refine hclear.bind fun _ => (triple_createAll weekdays (others before) []).bind fun _ =>
    triple_getProjectTriggers.bind fun found => (triple_countInstalled found _).bind fun installed => ?_
  refine (triple_conclude _ installed).mono (fun p hp => hp.mono fun triggers h => ?_) (fun _ p hp => hp)
    fun _ h => h
  obtain ⟨⟨hadded, rfl⟩, rfl⟩ := h
  refine ⟨hadded, ?_⟩
  rw [List.countP_eq_length_filter, ← List.length_map (f := Trigger.spec),
    own_added (others_others before) hadded, List.length_map]

/-- From whatever triggers there are: the triggers of other functions stay as they are, the
installation ends well exactly if no call has failed, it then leaves the five triggers of its own,
and after it another installation that ends well leaves the same. -/
theorem installTrigger_converges (answers : ℕ → Answer) (before : List Trigger) :
    let r := installTrigger.run (scriptApp answers) ⟨before, 0⟩
    others r.state.triggers = others before ∧
    (r.outcome = .ok () ↔ ∀ i < r.state.made, (answers i).failure = none) ∧
    (r.outcome = .ok () → (r.state.triggers.filter isOwn).map Trigger.spec =
        [⟨js "runDailyAlert", some .monday, some 17⟩, ⟨js "runDailyAlert", some .tuesday, some 17⟩,
          ⟨js "runDailyAlert", some .wednesday, some 17⟩,
          ⟨js "runDailyAlert", some .thursday, some 17⟩, ⟨js "runDailyAlert", some .friday, some 17⟩] ∧
      ∀ answers', let again := installTrigger.run (scriptApp answers') ⟨r.state.triggers, 0⟩
        again.outcome = .ok () →
          again.state.triggers.map Trigger.spec = r.state.triggers.map Trigger.spec) := by
  obtain ⟨hfine, hfailed⟩ := triple_installTrigger answers before ⟨before, 0⟩
    ⟨fun i hi => absurd hi (Nat.not_lt_zero i), rfl, rfl⟩
  intro r
  cases hout : r.outcome with
  | error e =>
    obtain ⟨⟨i, hi, hcall⟩, hothers⟩ := hfailed e hout
    refine ⟨hothers, ⟨by rintro ⟨⟩, fun h => absurd (h i hi) hcall⟩, by rintro ⟨⟩⟩
  | ok _ =>
    obtain ⟨hcalls, hothers, new, htriggers, hnew⟩ := hfine () hout
    refine ⟨hothers, ⟨fun _ => hcalls, fun _ => rfl⟩, fun _ => ⟨?_, ?_⟩⟩
    · exact own_added (others_others before) ⟨new, htriggers, hnew⟩
    · intro answers' again hagain
      obtain ⟨-, -, new', htriggers', hnew'⟩ :=
        (triple_installTrigger answers' r.state.triggers ⟨r.state.triggers, 0⟩
          ⟨fun i hi => absurd hi (Nat.not_lt_zero i), rfl, rfl⟩).1 () hagain
      rw [htriggers', List.map_append, hnew', hothers, ← hnew, ← List.map_append, ← htriggers]

/-- An installation whose thirteenth call fails, or none does. -/
def sampleAnswers (fails : Bool) (i : ℕ) : Answer :=
  if fails && i == 12 then ⟨some (newError (js "Service invoked too many times")), false, decimal i⟩
  else ⟨none, true, decimal i⟩

def sampleTriggers : List Trigger :=
  [⟨js "a", weekly .monday⟩, ⟨js "b", ⟨js "tidy", some .monday, some 17⟩⟩,
    ⟨js "c", ⟨entryPoint, some .friday, some 9⟩⟩, ⟨js "d", ⟨js "probe", none, none⟩⟩]

/-- An installation that fails half-way and then one that does not. -/
theorem installTrigger_converges_again :
    let failed := installTrigger.run (scriptApp (sampleAnswers true)) ⟨sampleTriggers, 0⟩
    let r := installTrigger.run (scriptApp (sampleAnswers false)) ⟨failed.state.triggers, 0⟩
    (failed.outcome ≠ .ok () ∧ failed.state.triggers ≠ others sampleTriggers) ∧
    r.outcome = .ok () ∧ others r.state.triggers = others sampleTriggers ∧
    (r.state.triggers.filter isOwn).map Trigger.spec =
      [weekly .monday, weekly .tuesday, weekly .wednesday, weekly .thursday, weekly .friday] := by
  intro failed r
  obtain ⟨hfailed, hended, -⟩ := installTrigger_converges (sampleAnswers true) sampleTriggers
  obtain ⟨hothers, hok, hfive⟩ :=
    installTrigger_converges (sampleAnswers false) failed.state.triggers
  have hout : r.outcome = .ok () := hok.mpr fun _ _ => rfl
  refine ⟨⟨fun h => ?_, ?_⟩, hout, hothers.trans hfailed, (hfive hout).1⟩
  · have hcall := hended.mp h 12 (by decide +kernel)
    cases hcall
  · decide +kernel

end Scheduler
end Spazito
