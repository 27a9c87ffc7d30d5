import Spazito.EcmaInteger
import Spazito.GateCourse
import Spazito.ScriptLog

set_option autoImplicit false

/-!
# The gate with many requests

Any number of requests at the same time: the acts under the lock, in its order, decide together with
the flag that each request found. The order of requests does not: one that found the open flag may
still be allowed after another has sealed the bot.
-/
namespace Spazito
open Ecma Script

/-! ## The count along the turns -/

namespace SecurityVault

theorem countOrZero_cases (raw : Option JSString) :
    (∃ b, countOrZero raw = .infinity b) ∨ ∃ m : ℤ, countOrZero raw = .finite m := by
  rw [countOrZero, parseCount]
  split_ifs with h
  · rcases Number.parseInt_cases (raw.getD (js "null")) with hnan | hother
    · rw [hnan] at h
      cases h
    · exact hother
  · exact .inr ⟨0, rfl⟩

theorem countOrZero_toText_nonpos {x : Number} (h : Number.le x (.finite (0 : ℕ)) = true) :
    Number.le (countOrZero (some x.toText)) (.finite (0 : ℕ)) = true := by
  rw [countOrZero, parseCount, Option.getD_some]
  split_ifs with htruthy
  · rcases Number.parseInt_toText_nonpos h with hnan | hle
    · rw [hnan] at htruthy
      cases htruthy
    · exact hle
  · decide

end SecurityVault

namespace SecurityGate

def GateState.AtMost (v : GateState) (n : ℕ) : Prop :=
  Number.le (SecurityVault.countOrZero v.failures) (.finite n) = true

theorem GateState.atMost_zero {v : GateState} (h : v.failures = some (js "0")) : v.AtMost 0 := by
  rw [AtMost, h, SecurityVault.countOrZero_zero]
  decide

theorem GateState.AtMost.mono {v : GateState} {m n : ℕ} (h : v.AtMost m) (hmn : m ≤ n) :
    v.AtMost n := by
  rcases Number.le_finite_iff.mp h with hinf | ⟨q, hq, hle⟩
  · exact Number.le_finite_iff.mpr (.inl hinf)
  · exact Number.le_finite_iff.mpr (.inr ⟨q, hq, hle.trans (by exact_mod_cast hmn)⟩)

theorem GateState.counted_cases {v : GateState} {n : ℕ} (h : v.AtMost n) (hn : n + 1 ≤ 2 ^ 53) :
    (∃ k ≤ n + 1, v.counted = .finite (k : ℕ)) ∨
      Number.le v.counted (.finite (0 : ℕ)) = true :=
  Number.add_one_cases (SecurityVault.countOrZero_cases v.failures) h hn

theorem GateState.AtMost.maxFailures_le {v : GateState} {n : ℕ} (h : v.AtMost n)
    (hseals : v.seals = true) : SecurityVault.maxFailures ≤ n + 1 := by
  by_contra hlt
  have hfive : Number.le (.finite SecurityVault.maxFailures) v.counted = true := by
    rw [GateState.seals, Bool.and_eq_true] at hseals
    exact hseals.1
  have hmax : SecurityVault.maxFailures = 5 := rfl
  rcases v.counted_cases h (by omega) with ⟨k, hk, hcounted⟩ | hzero
  · have hle := Number.natCast_le_of_le hfive (n := k) (by rw [hcounted]; simp [Number.le, Number.lt])
    omega
  · have hle := Number.natCast_le_of_le hfive hzero
    omega

theorem GateState.AtMost.apply {v : GateState} {n : ℕ} (h : v.AtMost n) (hn : n + 1 ≤ 2 ^ 53)
    (a : Act) : (a.apply v).AtMost (n + if a.counts then 1 else 0) := by
  cases a with
  | record sid now =>
    have hsame : (Act.apply (.record sid now) v).failures = v.failures := by
      rw [Act.apply]
      split <;> rfl
    rw [AtMost, hsame]
    exact h
  | count =>
    change Number.le (SecurityVault.countOrZero (some v.counted.toText)) _ = true
    rcases v.counted_cases h hn with ⟨k, hk, hcounted⟩ | hzero
    · have hread : SecurityVault.countOrZero (some v.counted.toText) = .finite k := by
        rw [hcounted, Number.toText_natCast k (by omega)]
        exact SecurityVault.countOrZero_of_text rfl (by omega)
      have hle : GateState.AtMost ⟨v.flag, some v.counted.toText, v.seen⟩ k := by
        rw [AtMost, hread]
        simp [Number.le, Number.lt]
      exact hle.mono hk
    · have hle : GateState.AtMost ⟨v.flag, some v.counted.toText, v.seen⟩ 0 :=
        SecurityVault.countOrZero_toText_nonpos hzero
      exact hle.mono (Nat.zero_le _)
  | reset => exact (GateState.atMost_zero (v := Act.apply .reset v) rfl).mono (Nat.zero_le _)
  | rearm => exact (GateState.atMost_zero (v := Act.apply .rearm v) rfl).mono (Nat.zero_le _)
  | audit => exact h

theorem linked_atMost {ι : Type} {ts : List (GateTurn ι)} {v v' : GateState} {n : ℕ}
    (h : Linked Act.apply v ts v') (hv : v.AtMost n)
    (hn : n + ts.countP (fun t => t.act.counts) < 2 ^ 53) :
    v'.AtMost (n + ts.countP fun t => t.act.counts) := by
  induction ts generalizing v n with
  | nil =>
    obtain rfl : v' = v := h
    exact hv
  | cons t ts ih =>
    obtain ⟨-, htail⟩ := h
    rw [List.countP_cons, Nat.add_comm (List.countP _ ts)] at hn ⊢
    have hstep := hv.apply (by omega) t.act
    have hrest := ih htail hstep (by omega)
    rwa [Nat.add_assoc] at hrest

theorem linked_seals {ι : Type} {ts us : List (GateTurn ι)} {t : GateTurn ι} {v v' : GateState}
    {n : ℕ} (h : Linked Act.apply v (ts ++ t :: us) v') (hv : v.AtMost n)
    (hseals : t.entry.seals = true) :
    SecurityVault.maxFailures ≤ n + (ts.countP fun t => t.act.counts) + 1 := by
  obtain ⟨w, hfront, hentry, -⟩ := linked_append.mp h
  by_contra hlt
  have hmax : SecurityVault.maxFailures = 5 := rfl
  have hcount := linked_atMost hfront hv (by omega)
  rw [hentry] at hseals
  have := hcount.maxFailures_le hseals
  omega

theorem apply_clears {a : Act} (h : a.clears = true) (v : GateState) :
    (a.apply v).failures = some (js "0") := by
  cases a with
  | reset => rfl
  | rearm => rfl
  | record _ _ => cases h
  | count => cases h
  | audit => cases h

/-- Allowed after the sealed flag was read: a full unlock, which has re-armed the bot. -/
theorem Course.rearms [Platform] {ι : Type} {q : Showing} {zero : Prop} {ts : List (GateTurn ι)}
    {d : Decision} (h : Course q zero true ts (.ok d)) (hd : d.allowed = true) :
    (q.unlocks && q.tokenOk && q.fromOk) = true ∧ ∃ t ∈ ts, t.act = .rearm := by
  cases h with
  | ignored _ => cases hd
  | blankUnlock _ _ => cases hd
  | replayedUnlock _ _ _ _ _ => cases hd
  | rearmed t u rest hq _ _ _ hrearm _ => exact ⟨hq, u, by simp, hrearm⟩

/-! ## The pool -/

section Pool

variable [Platform] {ι : Type} [DecidableEq ι]

/-! The only read of the count that an allowed request may be at is the one of the reset. -/

/-- What is left of a request that is about to be allowed. -/
def resetting : Action Decision := SecurityVault.resetFailures.bind fun _ => .ret granted

/-- At a read of the count, the request is about to be allowed or never is. -/
def CountRead (t : Action Decision) : Prop :=
  ∀ k, t = .perform (.op (.getProperty .secFailures)) k → t = resetting ∨ t.Spares granted

abbrev countless : Footprint := ⟨(· ≠ .secFailures), fun _ => True, fun _ => False⟩

omit [Platform] [DecidableEq ι] in
theorem countRead_countless (c : Cmd GAS) (k : c.Ret → Action Decision) (hc : countless.allows c) :
    CountRead (.perform c k) := by
  intro k' hk
  injection hk with hcmd
  subst hcmd
  exact absurd rfl hc

omit [Platform] in
theorem always_countless {β : Type} {p : Action β} {f : β → Action Decision}
    (hp : p.Within countless.allows) (hf : ∀ b, (f b).Always CountRead) :
    (p.bind f).Always CountRead :=
  .bind hp countRead_countless (fun _ _ => nofun) hf

omit [Platform] [DecidableEq ι] in
theorem always_spares {t : Action Decision} (h : t.Spares granted) : t.Always CountRead :=
  h.always fun _ hq _ _ => .inr hq

omit [Platform] in
theorem always_resetting : resetting.Always CountRead := by
  refine ⟨fun _ _ => .inl rfl, fun (r : Option JSString) => ?_⟩
  change Prog.Always CountRead (Prog.bind (if SecurityVault.countOrZero r = .finite 0 then _ else _) _)
  split_ifs
  · exact nofun
  · exact always_countless (Footprint.withScriptLock (Footprint.setProperty trivial) trivial) fun _ => nofun

theorem always_authorize (e : Option WebhookEvent) : (authorize e).Always CountRead := by
  have hrefused (f : Decision) (hf : f ≠ granted) : (.ret f : Action Decision).Spares granted := hf
  refine always_countless (SecurityVault.within_isSealed (by decide)) fun isSealed => ?_
  split_ifs
  · refine always_countless (within_tryUnseal _ (fun _ h => h) fun _ _ => trivial) fun unsealed => ?_
    split_ifs
    · exact always_resetting
    · exact nofun
  · refine always_countless (within_matchesToken (by decide)) fun tokenOk => ?_
    refine always_countless (within_matchesRecipient (by decide)) fun fromOk => ?_
    split_ifs
    · refine always_countless (Footprint.console _ _) fun _ => always_spares ?_
      exact .bind fun failure => nofun
    · exact always_countless (Footprint.console _ _) fun _ => nofun
    · refine always_countless (SecurityVault.within_checkAndRecordSid (by decide) trivial)
        fun replayed => ?_
      split_ifs
      · refine always_countless (Footprint.console _ _) fun _ => always_spares ?_
        exact .bind fun _ => nofun
      · exact always_resetting

/-- Setting the count back, the request found it at zero, with all its turns behind it, and was
allowed. -/
def ReadZero (started p : Pool GAS JSError Decision ι Store) (turns : List (GateTurn ι)) (i : ι) : Prop :=
  ∃ q q' front, Pool.Runs gateEffect started q ∧ q.thread i = resetting ∧
    SecurityVault.countOrZero (q.data .secFailures) = .finite 0 ∧ Pool.Step gateEffect q i q' ∧
    q'.thread i = .ret granted ∧ Pool.Runs gateEffect q' p ∧
    front <+: turns ∧ q.order = front.map (·.tid) ∧ ownTurns i front = ownTurns i turns

theorem readZero_of_found {requests : ι → Option WebhookEvent} {s : Store}
    {p : Pool GAS JSError Decision ι Store} {turns : List (GateTurn ι)} {i : ι}
    (horder : p.order = turns.map (·.tid)) (hend : p.thread i = .ret granted)
    (h : foundZero (Pool.Seen gateEffect (Pool.start (fun i => authorize (requests i)) s) p) i) :
    ReadZero (Pool.start (fun i => authorize (requests i)) s) p turns i := by
  obtain ⟨_, ⟨q, q', k, hfront, hop, rfl, hstep, hthread, hback⟩, hzero⟩ := h
  have halways : (q.thread i).Always CountRead := hfront.always (always_authorize (requests i))
  have hreset : q.thread i = resetting := by
    refine (halways.now k hop).resolve_right fun hspares => ?_
    rw [hop] at hspares
    have hnever := hback.spares (hthread ▸ hspares (q.data .secFailures))
    rw [hend] at hnever
    exact hnever rfl
  have hended : q'.thread i = .ret granted := by
    have hk : resetting = .perform (.op (.getProperty .secFailures)) k := hreset.symm.trans hop
    injection hk with _ hk
    rw [hthread, ← hk]
    change Prog.bind (if SecurityVault.countOrZero (q.data .secFailures) = .finite 0 then _ else _) _ = _
    rw [if_pos hzero]
    rfl
  obtain ⟨more, hmore, hnone⟩ := Pool.Runs.order_ended (x := .ok granted) hback hended
  have hsame : q'.order = q.order := hstep.order_op hop
  rw [hsame, horder, List.map_eq_append_iff] at hmore
  obtain ⟨front, back, rfl, hfrontTids, rfl⟩ := hmore
  refine ⟨q, q', front, hfront, hreset, hzero, hstep, hended, hback, List.prefix_append _ _,
    hfrontTids.symm, ?_⟩
  have hback : ownTurns i back = [] := by
    refine List.filter_eq_nil_iff.mpr fun t ht htid => hnone ?_
    exact List.mem_map.mpr ⟨t, ht, of_decide_eq_true htid⟩
  rw [ownTurns, ownTurns, List.filter_append, ← ownTurns, ← ownTurns, hback, List.append_nil]

theorem disciplined_afterFlag (params : Parameters) (b : Bool) : Locked (afterFlag params b) := by
  have h := locked_authorize (some ⟨some params⟩)
  rw [authorize_eq] at h
  cases b with
  | true => exact h.2 (some (js "true"))
  | false => exact h.2 none

theorem within_afterFlag (params : Parameters) (b : Bool) :
    (afterFlag params b).Within footprint.allows := by
  have h := within_authorize (some ⟨some params⟩)
  rw [authorize_eq] at h
  cases b with
  | true => exact h.2 (some (js "true"))
  | false => exact h.2 none

/-- **The gate, section by section.** However requests interleave, if every lock is obtained in the
end: the acts under the lock, in its order, lead from the first security state to the last; each
request decides as the gate does on the flag that it read before it began and on what its own
sections found, and leaves the reset out only if it found the count at zero when it was at it; one that
read the sealed flag is allowed only as a full unlock that re-armed the bot; and a seal comes after five
counted failures at least since the count was set back. -/
theorem gate_sections (requests : ι → Option WebhookEvent) (s : Store) (hc : Configured s)
    (p : Pool GAS JSError Decision ι Store)
    (hruns : Pool.Runs gateEffect (Pool.start (fun i => authorize (requests i)) s) p)
    (result : ι → Except JSError Decision) (hend : ∀ i, p.thread i = Prog.orRaise (result i)) :
    let started := Pool.start (fun i => authorize (requests i)) s
    ∃ turns : List (GateTurn ι), p.order = turns.map (·.tid) ∧
      Linked Act.apply (gateState s) turns (gateState p.data) ∧
      (∀ i, ∃ q, Pool.On gateEffect started p q ∧ q.thread i = authorize (requests i) ∧
        let shown := showingOf (paramsOf (requests i)) s
        Course shown (ReadZero started p turns i) (gateState q.data).isSealed (ownTurns i turns)
          (result i) ∧
        ((gateState q.data).isSealed = true → ∀ d, result i = .ok d → d.allowed = true →
          (shown.unlocks && shown.tokenOk && shown.fromOk) = true ∧
            ∃ t ∈ ownTurns i turns, t.act = .rearm)) ∧
      ∀ front t back, turns = front ++ t :: back → t.act = .count → t.entry.seals = true →
        (∀ n, (gateState s).AtMost n →
          SecurityVault.maxFailures ≤ n + (front.countP fun t => t.act.counts) + 1) ∧
        ∀ before u since, front = before ++ u :: since → u.act.clears = true →
          SecurityVault.maxFailures ≤ (since.countP fun t => t.act.counts) + 1 := by
  intro started
  have hread := Pool.Runs.after_read
    (E := fun i o d a d' => gateEffect i o d a d' ∧ Pool.Seen gateEffect started p i o d a)
    (P := fun i => authorize (requests i)) (o := .getProperty .secSealed)
    (k := fun i (r : Option JSString) => afterFlag (paramsOf (requests i)) (decide (r = some (js "true"))))
    (fun i => authorize_eq (requests i)) (fun _ _ _ _ heff => heff.1.2.2) hruns.observed ?_
  · change ∃ flag : ι → Option JSString, _ at hread
    obtain ⟨flag, hflag, hrest⟩ := hread
    obtain ⟨ss, hserial⟩ := serialized (raceEffect (Pool.Seen gateEffect started p)) (kept s) gateState writes
      (fun _ _ _ _ _ => raceEffect_good) (fun _ _ _ _ _ => raceEffect_frame) s (fun _ _ => rfl)
      (fun i => disciplined_afterFlag _ _) (Pool.Runs.within (fun i => within_afterFlag _ _) hrest)
    obtain ⟨hchain, horder, htrail⟩ := hserial.complete fun i => by
      rw [hend i]
      cases result i with
      | ok d => exact .inl ⟨d, rfl⟩
      | error e => exact .inr ⟨e, rfl⟩
    have hcourse : ∀ i, ∃ ts, Did (mine i ss) ts ∧ Course (showingOf (paramsOf (requests i)) s)
        (foundZero (Pool.Seen gateEffect started p) i) (decide (flag i = some (js "true"))) ts (result i) := by
      intro i
      have hfinished := htrail i
      rw [hend i] at hfinished
      exact finished_afterFlag hc (fun t ht => hchain.closed t (mem_mine.mp ht).1) hfinished
    choose own hown hdecide using hcourse
    obtain ⟨turns, hturns, hmine⟩ := exists_turns own hown
    have hlinked := hchain.linked hturns
    refine ⟨turns, ?_, hlinked, fun i => ?_, fun front t back hturn _ hseals => ?_⟩
    · exact horder.trans (map_tid hturns)
    · obtain ⟨q, hon, hbegin, heff⟩ := hflag i
      have hflag : flag i = q.data .secSealed := heff.1.2.1
      have hcourse : Course (showingOf (paramsOf (requests i)) s) (ReadZero started p turns i)
          (gateState q.data).isSealed (ownTurns i turns) (result i) := by
        rw [hmine, GateState.isSealed, gateState, ← hflag]
        refine (hdecide i).imp fun hallowed => readZero_of_found (horder.trans (map_tid hturns)) ?_
        rw [hend i, hallowed]
        rfl
      refine ⟨q, ⟨hon.1.mono fun _ _ _ _ _ h => h.1, hon.2.mono fun _ _ _ _ _ h => h.1⟩, hbegin,
        hcourse, fun hsealed d hd => ?_⟩
      rw [hsealed, hd] at hcourse
      exact hcourse.rearms
    · rw [hturn] at hlinked
      refine ⟨fun n hn => linked_seals hlinked hn hseals, fun before u since hfront hclears => ?_⟩
      rw [hfront, List.append_assoc] at hlinked
      obtain ⟨w, -, -, hrest⟩ := linked_append.mp hlinked
      have h := linked_seals hrest (GateState.atMost_zero (apply_clears hclears w)) hseals
      rwa [Nat.zero_add] at h
  · intro i hi
    rw [hend i] at hi
    cases hr : result i <;> rw [hr] at hi <;> cases hi

/-! ## Not request by request -/

omit [DecidableEq ι]

def storedSids (s : Store) : Set JSString :=
  {sid | ∃ entry ∈ s.array .secSeenSids, Value.property entry (js "sid") = .ok (.str sid)}

/-- Decisions and a security state that the same requests would have led to one after another, in
some order. -/
def Serializable (requests : ι → Option WebhookEvent) (s : Store)
    (result : ι → Except JSError Decision) (s' : Store) : Prop :=
  ∃ (order : List ι) (env : ι → Env), order.Nodup ∧ (∀ i, i ∈ order) ∧
    (∀ i, (env i).Writes ∧ ∀ n, (env i).lock n = true) ∧
    let visits := order.map fun i => ⟨requests i, env i⟩
    List.Forall₂ (fun i r => r.outcome = result i) order (history s visits) ∧
    storeAfter s visits .secSealed = s' .secSealed ∧
    storeAfter s visits .secFailures = s' .secFailures ∧
    storedSids (storeAfter s visits) = storedSids s'

theorem visit_step {s₀ s : Store} (hc : Configured s₀) (hs : kept s₀ s) {v : Vault}
    (hr : Represents s v) (hbound : v.failures < 2 ^ 53) {e : Option WebhookEvent} {env : Env}
    (hw : env.Writes) (hlocks : ∀ n, env.lock n = true) :
    ∃ d v', v.step (showingOf (paramsOf e) s₀) (env.clock 0) (fun _ => true) = (d, v') ∧
      (visitRecord s ⟨e, env⟩).outcome = .ok d ∧ Represents (visitRecord s ⟨e, env⟩).after v' ∧
      kept s₀ (visitRecord s ⟨e, env⟩).after := by
  have hf := authorize_follows (w := ⟨s, env⟩) e (hc.of_frame (by decide) hs) hr hw hbound
  have hfree : env.lock = fun _ => true := funext hlocks
  obtain ⟨hdecision, hrep, hframe⟩ := hf
  rw [showingOf_frame hs, hfree] at hdecision hrep
  exact ⟨_, _, rfl, hdecision, hrep, fun k hk => (hframe k hk).trans (hs k hk)⟩

end Pool

section
open AppsScript

def racedStore : Store := sampleStore.set .secFailures (js "4")

def racedRequests : Fin 2 → Option WebhookEvent
  | 0 => some ⟨some ⟨some (js "token"), some (js "+15550199"), some (js "list"), some (js "SM1")⟩⟩
  | 1 => probeRequest.event

/-- The probe seals the bot when the other request is about to set the count back. -/
def racedPool : Pool GAS JSError Decision (Fin 2) Store :=
  List.foldl (Pool.play sampleAnswer) (Pool.start (fun i => authorize (racedRequests i)) racedStore)
    (List.replicate 9 (0, true) ++ List.replicate 19 (1, true) ++ List.replicate 3 (0, true))

def racedResult : Fin 2 → Except JSError Decision
  | 0 => .ok ⟨true, false⟩
  | 1 => .ok ⟨false, true⟩

theorem configured_racedStore : Configured racedStore := by decide

theorem gateEffect_answer {ι : Type} (i : ι) (o : Op) (s : Store) (ho : (!waitedOut o) = true) :
    gateEffect i o s (sampleAnswer i o s).1 (sampleAnswer i o s).2 := by
  rw [Bool.not_eq_true'] at ho
  refine ⟨ho, ?_⟩
  cases o with
  | setProperty k v => exact .inl ⟨rfl, rfl⟩
  | getProperty k => exact ⟨rfl, rfl⟩
  | fetch _ | sleep _ | now | console _ _ => rfl

theorem racedPool_runs : Pool.Runs gateEffect
    (Pool.start (fun i => authorize (racedRequests i)) racedStore) racedPool :=
  Pool.runs_play_of (fun o => !waitedOut o) gateEffect_answer (by decide +kernel)

theorem racedPool_ends (i : Fin 2) : racedPool.thread i = Prog.orRaise (racedResult i) := by
  have h : ∀ i, racedPool.outcome? i = some (racedResult i) := by decide +kernel
  exact Pool.outcome?_eq_some.mp (h i)

theorem racedPool_order : racedPool.order = [0, 1, 0] := by decide +kernel

theorem represents_racedStore : Represents racedStore ⟨4, false, []⟩ :=
  ⟨by decide, by decide, .inl ⟨by decide, rfl⟩⟩

theorem probe_after_request {env : Fin 2 → Env}
    (hfree : ∀ i, (env i).Writes ∧ ∀ n, (env i).lock n = true) :
    let first := visitRecord racedStore ⟨racedRequests 0, env 0⟩
    first.outcome = racedResult 0 →
      (visitRecord first.after ⟨racedRequests 1, env 1⟩).outcome ≠ racedResult 1 := by
  intro first hfirst hsecond
  obtain ⟨d, v, hstep, hd, hrep, hkept⟩ := visit_step (e := racedRequests 0) configured_racedStore
    (fun _ _ => rfl) represents_racedStore (by decide) (hfree 0).1 (hfree 0).2
  obtain rfl : d = ⟨true, false⟩ := Except.ok.inj (hd.symm.trans hfirst)
  have hshown : ((showingOf (paramsOf (racedRequests 0)) racedStore).tokenOk &&
      !(showingOf (paramsOf (racedRequests 0)) racedStore).fromOk) = false := by decide +kernel
  obtain ⟨-, hcase⟩ := step_open rfl hstep
  rw [hshown, if_neg Bool.false_ne_true, if_pos rfl] at hcase
  obtain ⟨hopen, hzero⟩ := hcase
  obtain ⟨d, v', hstep, hd, -, -⟩ := visit_step (e := racedRequests 1) configured_racedStore hkept
    hrep (by omega) (hfree 1).1 (hfree 1).2
  obtain rfl : d = ⟨false, true⟩ := Except.ok.inj (hd.symm.trans hsecond)
  have hprobe : ((showingOf (paramsOf (racedRequests 1)) racedStore).tokenOk &&
      !(showingOf (paramsOf (racedRequests 1)) racedStore).fromOk) = true := by decide +kernel
  obtain ⟨htold, hcase⟩ := step_open hopen hstep
  rw [hprobe, if_pos rfl, hzero] at hcase
  rw [hcase.2.2] at htold
  cases htold

theorem request_after_probe {env : Fin 2 → Env}
    (hfree : ∀ i, (env i).Writes ∧ ∀ n, (env i).lock n = true) :
    let first := visitRecord racedStore ⟨racedRequests 1, env 1⟩
    (visitRecord first.after ⟨racedRequests 0, env 0⟩).outcome ≠ racedResult 0 := by
  intro first hsecond
  obtain ⟨d, v, hstep, -, hrep, hkept⟩ := visit_step (e := racedRequests 1) configured_racedStore
    (fun _ _ => rfl) represents_racedStore (by decide) (hfree 1).1 (hfree 1).2
  have hprobe : ((showingOf (paramsOf (racedRequests 1)) racedStore).tokenOk &&
      !(showingOf (paramsOf (racedRequests 1)) racedStore).fromOk) = true := by decide +kernel
  obtain ⟨-, hcase⟩ := step_open rfl hstep
  rw [hprobe, if_pos rfl] at hcase
  obtain ⟨-, hfive, hsealed⟩ := hcase
  obtain ⟨d, v', hstep, hd, -, -⟩ := visit_step (e := racedRequests 0) configured_racedStore hkept
    hrep (by rw [hfive]; decide) (hfree 0).1 (hfree 0).2
  obtain rfl : d = ⟨true, false⟩ := Except.ok.inj (hd.symm.trans hsecond)
  have hphrase : (showingOf (paramsOf (racedRequests 0)) racedStore).unlocks = false := by
    decide +kernel
  rw [Vault.step, hsealed, Vault.unlocking, hphrase] at hstep
  cases hstep

/-- **Requests do not come one after another.** -/
theorem gate_not_serializable : Configured racedStore ∧
    Pool.Runs gateEffect (Pool.start (fun i => authorize (racedRequests i)) racedStore) racedPool ∧
    (∀ i, racedPool.thread i = Prog.orRaise (racedResult i)) ∧
    ¬ Serializable racedRequests racedStore racedResult racedPool.data := by
  refine ⟨configured_racedStore, racedPool_runs, racedPool_ends, ?_⟩
  rintro ⟨order, env, hnodup, hall, hfree, hdecides, -⟩
  have hperm : order.Perm [0, 1] := by
    rw [List.perm_ext_iff_of_nodup hnodup (by decide)]
    exact fun i => iff_of_true (hall i) (by revert i; decide)
  obtain ⟨a, b, rfl⟩ := List.length_eq_two.mp hperm.length_eq
  have horder : ∀ a b : Fin 2, [a, b].Nodup → (a = 0 ∧ b = 1) ∨ (a = 1 ∧ b = 0) := by decide
  rcases horder a b hnodup with ⟨rfl, rfl⟩ | ⟨rfl, rfl⟩
  · rw [List.map_cons, List.map_cons, history, history, List.forall₂_cons, List.forall₂_cons]
      at hdecides
    exact probe_after_request hfree hdecides.1 hdecides.2.1
  · rw [List.map_cons, List.map_cons, history, history, List.forall₂_cons, List.forall₂_cons]
      at hdecides
    exact request_after_probe hfree hdecides.2.1

theorem gate_sections_raced : ∃ turns : List (GateTurn (Fin 2)), [0, 1, 0] = turns.map (·.tid) ∧
    Linked Act.apply (gateState racedStore) turns (gateState racedPool.data) ∧
    ∀ i, ∃ b, Course (showingOf (paramsOf (racedRequests i)) racedStore)
      (ReadZero (Pool.start (fun i => authorize (racedRequests i)) racedStore) racedPool turns i) b
      (ownTurns i turns) (racedResult i) := by
  obtain ⟨turns, horder, hlinked, hcourse, -⟩ := gate_sections racedRequests racedStore
    configured_racedStore racedPool racedPool_runs racedResult racedPool_ends
  refine ⟨turns, racedPool_order.symm.trans horder, hlinked, fun i => ?_⟩
  obtain ⟨q, -, -, hi, -⟩ := hcourse i
  exact ⟨_, hi⟩

end

end SecurityGate
end Spazito
