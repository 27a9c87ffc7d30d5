import Spazito.ScriptMoments
import Spazito.ScriptTurns
import Spazito.ShellLocks
import Spazito.VaultHistory

set_option autoImplicit false

/-!
# Requests at the same time

The gate asks for the lock for each of its writes, not for a request as a whole. The locked steps of
all requests come one after another; in between, each request goes by the flag that it read when it
began.
-/
namespace Spazito
open Ecma Script

namespace SecurityGate

/-! ## The acts on the security state -/

structure GateState where
  flag : Option JSString
  failures : Option JSString
  seen : Option JSString

def gateState (s : Store) : GateState := ⟨s .secSealed, s .secFailures, s .secSeenSids⟩

section
variable (s : Store) (text : JSString)

@[simp] theorem gateState_flag : gateState (s.set .secSealed text) =
    { gateState s with flag := some text } := rfl
@[simp] theorem gateState_failures : gateState (s.set .secFailures text) =
    { gateState s with failures := some text } := rfl
@[simp] theorem gateState_seen : gateState (s.set .secSeenSids text) =
    { gateState s with seen := some text } := rfl
@[simp] theorem gateState_audit : gateState (s.set .secAudit text) = gateState s := rfl

end

inductive Act
  | record (sid : JSString) (now : Time)
  | count
  | reset
  | rearm
  | audit

def Act.clears : Act → Bool
  | reset | rearm => true
  | record _ _ | count | audit => false

def Act.counts : Act → Bool
  | count => true
  | record _ _ | reset | rearm | audit => false

namespace GateState

variable (v : GateState)

def isSealed : Bool := decide (v.flag = some (js "true"))

def counted : Number := Number.add (SecurityVault.countOrZero v.failures) (.finite 1)

def seals : Bool := Number.le (.finite SecurityVault.maxFailures) v.counted && !v.isSealed

def entries : List Value :=
  match v.seen with
  | none => []
  | some raw =>
    match Value.parse raw with
    | some (.arr xs) => xs
    | _ => []

/-- Whether the sid counts as replayed; a damaged entry may make the check throw. -/
def replayed (sid : JSString) (now : Time) : Except Fault Bool := do
  SecurityVault.hasSid sid (← SecurityVault.keepFresh now v.entries)

def seenWith (sid : JSString) (now : Time) : Except Fault JSString := do
  let fresh ← SecurityVault.keepFresh now v.entries
  let entry := Value.obj [(js "sid", .str sid), (js "t", .num (.finite now.val))]
  return Value.stringify (.arr (SecurityVault.lastOf SecurityVault.maxSids (fresh ++ [entry])))

end GateState

def Act.apply : Act → GateState → GateState
  | record sid now, v =>
    match v.replayed sid now, v.seenWith sid now with
    | .ok false, .ok text => { v with seen := some text }
    | _, _ => v
  | count, v =>
    ⟨if v.seals then some (js "true") else v.flag, some v.counted.toText, v.seen⟩
  | reset, v => { v with failures := some (js "0") }
  | rearm, v => ⟨some (js "false"), some (js "0"), v.seen⟩
  | audit, v => v

/-! ## One request -/

abbrev GateTurn (ι : Type) := Turn ι GateState Act

/-- After an allowed request the count is set back, unless it was found at zero. -/
inductive Clearing {ι : Type} (zero : Prop) : List (GateTurn ι) → Prop
  | none (h : zero) : Clearing zero []
  | reset (t : GateTurn ι) (h : t.act = .reset) : Clearing zero [t]

def refused : Decision := ⟨false, false⟩
def granted : Decision := ⟨true, false⟩

/-- The decision of a request that shows `q`, by the flag that it read and by its turns. -/
inductive Course [Platform] {ι : Type} (q : Showing) (zero : Prop) :
    Bool → List (GateTurn ι) → Except JSError Decision → Prop
  | ignored (h : (q.unlocks && q.tokenOk && q.fromOk) = false) : Course q zero true [] (.ok refused)
  | ambient (h : q.tokenOk = false) : Course q zero false [] (.ok refused)
  | probe (t : GateTurn ι) (htoken : q.tokenOk = true) (hfrom : q.fromOk = false)
      (hact : t.act = .count) : Course q zero false [t] (.ok ⟨false, t.entry.seals⟩)
  | blankUnlock (h : (q.unlocks && q.tokenOk && q.fromOk) = true) (hsid : q.sid = none) :
      Course q zero true [] (.ok refused)
  | blank (t : GateTurn ι) (h : (q.tokenOk && q.fromOk) = true) (hsid : q.sid = none)
      (hact : t.act = .audit) : Course q zero false [t] (.ok refused)
  | damaged (b : Bool) (t : GateTurn ι) {sid : JSString} {now : Time} {f : Fault}
      (h : (q.tokenOk && q.fromOk) = true) (hu : b = true → q.unlocks = true)
      (hsid : q.sid = some sid) (hact : t.act = .record sid now)
      (hf : t.entry.replayed sid now = .error f) :
      Course q zero b [t] (.error (Platform.faultError f))
  | replayedUnlock (t : GateTurn ι) {sid : JSString} {now : Time}
      (h : (q.unlocks && q.tokenOk && q.fromOk) = true) (hsid : q.sid = some sid)
      (hact : t.act = .record sid now) (hr : t.entry.replayed sid now = .ok true) :
      Course q zero true [t] (.ok refused)
  | replayed (t u : GateTurn ι) {sid : JSString} {now : Time} (h : (q.tokenOk && q.fromOk) = true)
      (hsid : q.sid = some sid) (hact : t.act = .record sid now)
      (hr : t.entry.replayed sid now = .ok true) (haudit : u.act = .audit) :
      Course q zero false [t, u] (.ok refused)
  | rearmed (t u : GateTurn ι) (rest : List (GateTurn ι)) {sid : JSString} {now : Time}
      (h : (q.unlocks && q.tokenOk && q.fromOk) = true) (hsid : q.sid = some sid)
      (hact : t.act = .record sid now) (hr : t.entry.replayed sid now = .ok false)
      (hrearm : u.act = .rearm) (hrest : Clearing zero rest) :
      Course q zero true (t :: u :: rest) (.ok granted)
  | accepted (t : GateTurn ι) (rest : List (GateTurn ι)) {sid : JSString} {now : Time}
      (h : (q.tokenOk && q.fromOk) = true) (hsid : q.sid = some sid)
      (hact : t.act = .record sid now) (hr : t.entry.replayed sid now = .ok false)
      (hrest : Clearing zero rest) : Course q zero false (t :: rest) (.ok granted)

theorem Clearing.imp {ι : Type} {zero zero' : Prop} {ts : List (GateTurn ι)} (h : zero → zero')
    (hts : Clearing zero ts) : Clearing zero' ts := by
  cases hts with
  | none hzero => exact .none (h hzero)
  | reset t hact => exact .reset t hact

theorem Course.imp [Platform] {ι : Type} {q : Showing} {zero zero' : Prop} {b : Bool}
    {ts : List (GateTurn ι)} {x : Except JSError Decision} (h : x = .ok granted → zero → zero')
    (hcourse : Course q zero b ts x) : Course q zero' b ts x := by
  cases hcourse with
  | ignored hq => exact .ignored hq
  | ambient hq => exact .ambient hq
  | probe t htoken hfrom hact => exact .probe t htoken hfrom hact
  | blankUnlock hq hsid => exact .blankUnlock hq hsid
  | blank t hq hsid hact => exact .blank t hq hsid hact
  | damaged _ t hq hu hsid hact hf => exact .damaged _ t hq hu hsid hact hf
  | replayedUnlock t hq hsid hact hr => exact .replayedUnlock t hq hsid hact hr
  | replayed t u hq hsid hact hr haudit => exact .replayed t u hq hsid hact hr haudit
  | rearmed t u rest hq hsid hact hr hrearm hrest =>
    exact .rearmed t u rest hq hsid hact hr hrearm (hrest.imp (h rfl))
  | accepted t rest hq hsid hact hr hrest => exact .accepted t rest hq hsid hact hr (hrest.imp (h rfl))

/-! ## What the requests see -/

/-- The warning of a wait that was given up. -/
def waitedOut : Op → Bool
  | .console .warn text => (js "Could not acquire the script lock").isPrefixOf text
  | _ => false

/-- Writes succeed, and every lock is obtained in the end: nobody warns of the contrary. -/
def gateEffect {ι : Type} : Effect GAS ι Store := fun i o s r s' =>
  waitedOut o = false ∧ storeEffect False i o s r s'

section Sections

variable {ι V α : Type} {M : ι → (o : Op) → Store → o.Ret → Prop} {s₀ : Store} {i : ι} {v v' : V}
  {view : Store → V}

/-- The same, seen as `M` says, for programs that write the security state only. -/
abbrev raceEffect (M : ι → (o : Op) → Store → o.Ret → Prop) : Effect GAS ι Store := fun i o s r s' =>
  footprint.allows (.op o) ∧ gateEffect i o s r s' ∧ M i o s r

abbrev kept (s₀ s : Store) : Prop := ∀ k ∉ securityKeys, s k = s₀ k

theorem raceEffect_good {o : Op} {s s' : Store} {r : o.Ret} (hs : kept s₀ s)
    (h : raceEffect M i o s r s') : kept s₀ s' := by
  intro k hk
  refine (storeEffect_frame h.2.1.2 ?_).trans (hs k hk)
  rintro text rfl
  exact hk h.1

theorem raceEffect_frame {o : Op} {s s' : Store} {r : o.Ret} (ho : ¬ writes o)
    (h : raceEffect M i o s r s') : gateState s' = gateState s := by
  have hk : ∀ k, s' k = s k := fun k => storeEffect_frame h.2.1.2 fun text hset => ho ⟨k, text, hset⟩
  rw [gateState, gateState, hk, hk, hk]

theorem raceEffect_getProperty {k : Key} {s s' : Store} {r : Option JSString}
    (h : raceEffect M i (.getProperty k) s r s') : s' = s := h.2.1.2.2

theorem ends_read {k : Key} {x : Except JSError (Option JSString)}
    (h : Ends (raceEffect M) (kept s₀) view i v (getProperty k) v' x) :
    v' = v ∧ ∃ s, kept s₀ s ∧ M i (.getProperty k) s (s k) ∧ view s = v ∧ x = .ok (s k) := by
  obtain ⟨rfl, s, r, hs, hv, heff, rfl⟩ := ends_getProperty (fun _ _ _ => raceEffect_getProperty) h
  obtain rfl : r = s k := heff.2.1.2.1
  exact ⟨rfl, s, hs, heff.2.2, hv, rfl⟩

theorem ends_write {k : Key} {text : JSString} {x : Except JSError Unit}
    (h : Ends (raceEffect M) (kept s₀) view i v (setProperty k text) v' x) :
    ∃ s, view s = v ∧ x = .ok () ∧ v' = view (s.set k text) := by
  obtain ⟨s, s', -, hv, heff, rfl⟩ := ends_setProperty h
  obtain ⟨rfl, rfl⟩ | ⟨hno, -⟩ := heff.2.1.2
  · exact ⟨s, hv, rfl, rfl⟩
  · exact absurd hno id

theorem ends_log {level : Level} {text : JSString} {x : Except JSError Unit}
    (h : Ends (raceEffect M) (kept s₀) view i v (console level text) v' x) : v' = v ∧ x = .ok () :=
  ends_console (fun _ _ _ h => h.2.1.2) h

theorem ends_now {x : Except JSError Time}
    (h : Ends (raceEffect M) (kept s₀) view i v now v' x) : v' = v ∧ ∃ t, x = .ok t := by
  obtain ⟨s, t, s', -, rfl, heff, htail⟩ := ends_perform.mp h
  obtain ⟨rfl, rfl⟩ := (ends_ret _).mp htail
  rw [show s' = s from heff.2.1.2]
  exact ⟨rfl, t, rfl⟩

theorem ends_require {k : Key} (hk : k ∉ securityKeys) (hset : Config.isMissing (s₀ k) = false)
    {x : Except JSError JSString}
    (h : Ends (raceEffect M) (kept s₀) view i v (Config.require k) v' x) :
    v' = v ∧ x = .ok (s₀.secret k) := by
  obtain ⟨w, y, hread, hrest⟩ := ends_bind.mp h
  obtain ⟨rfl, s, hs, -, -, rfl⟩ := ends_read hread
  rw [Prog.orRaise_ok_bind, hs k hk] at hrest
  simp only [hset, Bool.false_eq_true, ↓reduceIte, Prog.pure_eq, ends_ret] at hrest
  exact hrest

theorem ends_matchesToken (hc : Configured s₀) {params : Parameters} {x : Except JSError Bool}
    (h : Ends (raceEffect M) (kept s₀) view i v (matchesToken params) v' x) :
    v' = v ∧ x = .ok (showingOf params s₀).tokenOk := by
  obtain ⟨w, y, hrequire, hrest⟩ := ends_bind.mp h
  obtain ⟨rfl, rfl⟩ := ends_require (by decide) (hc _ (by decide)) hrequire
  obtain ⟨rfl, rfl⟩ := (ends_ret _).mp hrest
  exact ⟨rfl, congrArg Except.ok (SecureCompare.equals_str _ _)⟩

theorem ends_matchesRecipient (hc : Configured s₀) {params : Parameters} {x : Except JSError Bool}
    (h : Ends (raceEffect M) (kept s₀) view i v (matchesRecipient params) v' x) :
    v' = v ∧ x = .ok (showingOf params s₀).fromOk := by
  obtain ⟨w, y, hrequire, hrest⟩ := ends_bind.mp h
  obtain ⟨rfl, rfl⟩ := ends_require (by decide) (hc _ (by decide)) hrequire
  obtain ⟨rfl, rfl⟩ := (ends_ret _).mp hrest
  exact ⟨rfl, congrArg Except.ok (SecureCompare.equals_str _ _)⟩

/-! ## The locked sections -/

theorem ends_readJson {key : Key} {x : Except JSError (List Value)}
    (h : Ends (raceEffect M) (kept s₀) view i v (SecurityVault.readJson key) v' x) :
    v' = v ∧ ∃ s, view s = v ∧ x = .ok (s.array key) := by
  obtain ⟨w, y, hread, hrest⟩ := ends_bind.mp h
  obtain ⟨rfl, s, -, -, hv, rfl⟩ := ends_read hread
  rw [Prog.orRaise_ok_bind] at hrest
  suffices hend : v' = w ∧ x = .ok (s.array key) from ⟨hend.1, s, hv, hend.2⟩
  rw [Store.array]
  cases hs : s key with
  | none =>
    rw [hs] at hrest
    exact (ends_ret _).mp hrest
  | some raw =>
    rw [hs] at hrest
    dsimp only at hrest ⊢
    cases hp : Value.parse raw with
    | none =>
      rw [hp] at hrest
      obtain ⟨w, y, hlog, hret⟩ := ends_bind.mp hrest
      obtain ⟨rfl, rfl⟩ := ends_log hlog
      exact (ends_ret _).mp hret
    | some value =>
      rw [hp] at hrest
      cases value <;> exact (ends_ret _).mp hrest

variable [Platform]

theorem ends_appendAudit (hc : Configured s₀) {kind : JSString} {sender : Option JSString}
    {v v' : GateState} {x : Except JSError Unit}
    (h : Ends (raceEffect M) (kept s₀) gateState i v (SecurityVault.appendAudit kind sender) v' x) :
    v' = v ∧ x = .ok () := by
  obtain ⟨w, y, hread, h⟩ := ends_bind.mp h
  obtain ⟨rfl, s, -, rfl⟩ := ends_readJson hread
  rw [Prog.orRaise_ok_bind] at h
  obtain ⟨w, y, hnow, h⟩ := ends_bind.mp h
  obtain ⟨rfl, t, rfl⟩ := ends_now hnow
  rw [Prog.orRaise_ok_bind] at h
  obtain ⟨w, y, hhash, h⟩ := ends_bind.mp h
  obtain ⟨w', z, hrequire, hhash⟩ := ends_bind.mp hhash
  obtain ⟨rfl, rfl⟩ := ends_require (by decide) (hc _ (by decide)) hrequire
  obtain ⟨rfl, rfl⟩ := (ends_ret _).mp hhash
  obtain ⟨s', rfl, rfl, rfl⟩ := ends_write h
  exact ⟨rfl, rfl⟩

def toJSError {β : Type} : Except Fault β → Except JSError β
  | .ok b => .ok b
  | .error f => .error (Platform.faultError f)

theorem ends_eval {β : Type} {x : Except Fault β} {y : Except JSError β}
    (h : Ends (raceEffect M) (kept s₀) view i v (eval x) v' y) : v' = v ∧ y = toJSError x := by
  cases x with
  | ok b => exact (ends_ret _).mp h
  | error f => exact (ends_raise _).mp h

theorem ends_recordBody {sid : JSString} {v v' : GateState} {x : Except JSError Bool}
    (h : Ends (raceEffect M) (kept s₀) gateState i v (SecurityVault.recordBody sid) v' x) :
    ∃ now, v' = Act.apply (.record sid now) v ∧ x = toJSError (v.replayed sid now) := by
  obtain ⟨w, y, hnow, h⟩ := ends_bind.mp h
  obtain ⟨rfl, now, rfl⟩ := ends_now hnow
  rw [Prog.orRaise_ok_bind] at h
  obtain ⟨w, y, hread, h⟩ := ends_bind.mp h
  obtain ⟨rfl, s, rfl, rfl⟩ := ends_readJson hread
  rw [Prog.orRaise_ok_bind] at h
  obtain ⟨w, y, hfresh, h⟩ := ends_bind.mp h
  obtain ⟨rfl, rfl⟩ := ends_eval hfresh
  have hentries : (gateState s).entries = s.array .secSeenSids := rfl
  refine ⟨now, ?_⟩
  rw [Act.apply, GateState.replayed, GateState.seenWith, hentries]
  cases hk : SecurityVault.keepFresh now (s.array .secSeenSids) with
  | error f =>
    rw [hk] at h
    exact (ends_raise _).mp h
  | ok fresh =>
    rw [hk, toJSError, Prog.orRaise_ok_bind] at h
    obtain ⟨w, y, hseen, h⟩ := ends_bind.mp h
    obtain ⟨rfl, rfl⟩ := ends_eval hseen
    cases hsid : SecurityVault.hasSid sid fresh with
    | error f =>
      rw [hsid] at h
      simpa [hsid, toJSError] using (ends_raise _).mp h
    | ok b =>
      rw [hsid] at h
      cases b with
      | true => simpa [hsid, toJSError] using (ends_ret _).mp h
      | false =>
        rw [toJSError, Prog.orRaise_ok_bind, if_neg Bool.false_ne_true] at h
        obtain ⟨w, y, hset, hret⟩ := ends_bind.mp h
        obtain ⟨s', hs', rfl, rfl⟩ := ends_write hset
        obtain ⟨rfl, rfl⟩ := (ends_ret _).mp hret
        rw [gateState_seen, hs']
        simp [hsid, toJSError]

omit [Platform] in
theorem ends_isSealed {v v' : GateState} {x : Except JSError Bool}
    (h : Ends (raceEffect M) (kept s₀) gateState i v SecurityVault.isSealed v' x) :
    v' = v ∧ x = .ok v.isSealed := by
  obtain ⟨w, y, hread, h⟩ := ends_bind.mp h
  obtain ⟨rfl, s, -, -, rfl, rfl⟩ := ends_read hread
  exact (ends_ret _).mp h

omit [Platform] in
theorem ends_reachesSeal {v v' : GateState} {n : Number} {x : Except JSError Bool}
    (h : Ends (raceEffect M) (kept s₀) gateState i v (SecurityVault.reachesSeal n) v' x) :
    v' = v ∧ x = .ok (Number.le (.finite SecurityVault.maxFailures) n && !v.isSealed) := by
  unfold SecurityVault.reachesSeal at h
  split_ifs at h with hn
  · obtain ⟨w, y, hflag, h⟩ := ends_bind.mp h
    obtain ⟨rfl, rfl⟩ := ends_isSealed hflag
    rw [hn, Bool.true_and]
    exact (ends_ret _).mp h
  · rw [Bool.eq_false_iff.mpr hn, Bool.false_and]
    exact (ends_ret _).mp h

theorem ends_countBody (hc : Configured s₀) {sender : Option JSString} {v v' : GateState}
    {x : Except JSError SecurityVault.Failure}
    (h : Ends (raceEffect M) (kept s₀) gateState i v (SecurityVault.countBody sender) v' x) :
    v' = Act.apply .count v ∧ ∃ flag, x = .ok ⟨flag, v.seals⟩ := by
  obtain ⟨w, y, hread, h⟩ := ends_bind.mp h
  obtain ⟨rfl, s, -, -, rfl, rfl⟩ := ends_read hread
  rw [Prog.orRaise_ok_bind] at h
  obtain ⟨w, y, hset, h⟩ := ends_bind.mp h
  obtain ⟨t, ht, rfl, rfl⟩ := ends_write hset
  rw [Prog.orRaise_ok_bind] at h
  obtain ⟨w, y, haudit, h⟩ := ends_bind.mp h
  obtain ⟨rfl, rfl⟩ := ends_appendAudit hc haudit
  rw [Prog.orRaise_ok_bind] at h
  obtain ⟨w, y, hreach, h⟩ := ends_bind.mp h
  obtain ⟨rfl, rfl⟩ := ends_reachesSeal hreach
  have hstate : gateState (t.set .secFailures
      (Number.add (SecurityVault.countOrZero (s .secFailures)) (.finite 1)).toText) =
      { gateState s with failures := some (gateState s).counted.toText } := by
    rw [gateState_failures, ht]
    rfl
  have hseals : (Number.le (.finite SecurityVault.maxFailures)
      (Number.add (SecurityVault.countOrZero (s .secFailures)) (.finite 1)) &&
        !({ gateState s with failures := some (gateState s).counted.toText } : GateState).isSealed) =
      (gateState s).seals := rfl
  rw [hstate, hseals, Prog.orRaise_ok_bind] at h
  rw [Act.apply]
  cases hs : (gateState s).seals with
  | true =>
    rw [hs, if_pos rfl] at h
    obtain ⟨w, y, hset, h⟩ := ends_bind.mp h
    obtain ⟨u, hu, rfl, rfl⟩ := ends_write hset
    rw [Prog.orRaise_ok_bind] at h
    obtain ⟨w, y, haudit, h⟩ := ends_bind.mp h
    obtain ⟨rfl, rfl⟩ := ends_appendAudit hc haudit
    rw [Prog.orRaise_ok_bind] at h
    obtain ⟨w, y, hlog, h⟩ := ends_bind.mp h
    obtain ⟨rfl, rfl⟩ := ends_log hlog
    obtain ⟨rfl, rfl⟩ := (ends_ret _).mp h
    exact ⟨by rw [gateState_flag, hu]; rfl, true, rfl⟩
  | false =>
    rw [hs, if_neg Bool.false_ne_true] at h
    obtain ⟨w, y, hflag, h⟩ := ends_bind.mp h
    obtain ⟨rfl, rfl⟩ := ends_isSealed hflag
    obtain ⟨rfl, rfl⟩ := (ends_ret _).mp h
    exact ⟨rfl, _, rfl⟩

theorem ends_rearmBody (hc : Configured s₀) {sender : Option JSString} {v v' : GateState}
    {x : Except JSError Bool}
    (h : Ends (raceEffect M) (kept s₀) gateState i v (SecurityVault.rearmBody sender) v' x) :
    v' = Act.apply .rearm v ∧ x = .ok true := by
  obtain ⟨w, y, hset, h⟩ := ends_bind.mp h
  obtain ⟨s, rfl, rfl, rfl⟩ := ends_write hset
  rw [Prog.orRaise_ok_bind] at h
  obtain ⟨w, y, hset', h⟩ := ends_bind.mp h
  obtain ⟨t, ht, rfl, rfl⟩ := ends_write hset'
  rw [Prog.orRaise_ok_bind] at h
  obtain ⟨w, y, haudit, h⟩ := ends_bind.mp h
  obtain ⟨rfl, rfl⟩ := ends_appendAudit hc haudit
  obtain ⟨rfl, rfl⟩ := (ends_ret _).mp h
  exact ⟨by rw [gateState_failures, ht]; rfl, rfl⟩

omit [Platform] in
theorem ends_resetBody {v v' : GateState} {x : Except JSError Unit}
    (h : Ends (raceEffect M) (kept s₀) gateState i v (setProperty .secFailures (js "0")) v' x) :
    v' = Act.apply .reset v ∧ x = .ok () := by
  obtain ⟨s, rfl, rfl, rfl⟩ := ends_write h
  exact ⟨rfl, rfl⟩

end Sections

end SecurityGate
end Spazito
