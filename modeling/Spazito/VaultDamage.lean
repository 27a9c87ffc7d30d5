import Spazito.AppsScript
import Spazito.EcmaCoercion
import Spazito.StoreRules
import Spazito.VaultGate

set_option autoImplicit false

/-!
# The vault on damaged state

Whatever the properties hold, the operations that read counts or append to the audit return. The
replay check and the log use what is in the stored entries, and return when these can be used.
-/
namespace Spazito
open Ecma Script

/-! ## Stored entries -/

def Datable : Value → Prop
  | .obj ps => (Value.lookup ps (js "t")).Printable
  | _ => True

/-- An audit entry that can be put into words. -/
def Loggable : Value → Prop
  | .undefined | .null => False
  | .obj ps => ∀ key ∈ [js "t", js "k", js "s"], (Value.lookup ps key).Printable
  | _ => True

instance : DecidablePred Datable := fun v => by
  cases v <;> unfold Datable <;> infer_instance

instance : DecidablePred Loggable := fun v => by
  cases v <;> unfold Loggable <;> infer_instance

namespace SecurityVault

theorem isUnexpired_ok (now : Time) (entry : Value) :
    (∃ keep, isUnexpired now entry = .ok keep) ↔ Datable entry := by
  have hread (t : Value) : (∃ keep, (do
      let x ← Value.toNumber t
      return Number.lt (Number.sub (.finite now.val) x) (.finite sidTtlMs) : Except Fault Bool) =
        .ok keep) ↔ t.Printable := by
    rw [← Value.toNumber_ok]
    cases Value.toNumber t with
    | ok x => simp
    | error f => simp
  unfold isUnexpired Datable
  cases entry with
  | undefined | null => simp [Value.truthy]
  | obj ps => simpa [Value.truthy, Value.property] using hread (Value.lookup ps (js "t"))
  | _ =>
    split_ifs
    · simpa [Value.property, Value.Printable] using hread .undefined
    · simp

theorem keepFresh_ok (now : Time) (seen : List Value) :
    (∃ fresh, keepFresh now seen = .ok fresh) ↔ ∀ entry ∈ seen, Datable entry := by
  induction seen with
  | nil => simp [keepFresh]
  | cons entry seen ih =>
    rw [List.forall_mem_cons, ← isUnexpired_ok now, ← ih, keepFresh]
    constructor
    · rintro ⟨fresh, h⟩
      obtain ⟨keep, hk, h⟩ := bind_eq_ok.mp h
      obtain ⟨rest, hr, -⟩ := bind_eq_ok.mp h
      exact ⟨⟨keep, hk⟩, rest, hr⟩
    · rintro ⟨⟨keep, hk⟩, rest, hr⟩
      exact ⟨_, bind_eq_ok.mpr ⟨keep, hk, bind_eq_ok.mpr ⟨rest, hr, rfl⟩⟩⟩

/-- What is kept is truthy, so that its sid can be asked for. -/
theorem truthy_of_keepFresh {now : Time} {seen fresh : List Value}
    (h : keepFresh now seen = .ok fresh) : ∀ entry ∈ fresh, entry.truthy = true := by
  induction seen generalizing fresh with
  | nil =>
    obtain rfl := Except.ok.inj h
    simp
  | cons entry seen ih =>
    obtain ⟨keep, rest, hkeep, hrest, rfl⟩ := keepFresh_cons h
    cases keep with
    | false => exact ih hrest
    | true =>
      refine List.forall_mem_cons.mpr ⟨?_, ih hrest⟩
      by_contra hfalsy
      rw [isUnexpired, if_neg hfalsy] at hkeep
      cases hkeep

theorem hasSid_ok (sid : JSString) {fresh : List Value} (h : ∀ entry ∈ fresh, entry.truthy = true) :
    ∃ known, hasSid sid fresh = .ok known := by
  induction fresh with
  | nil => exact ⟨false, rfl⟩
  | cons entry fresh ih =>
    obtain ⟨hentry, hfresh⟩ := List.forall_mem_cons.mp h
    obtain ⟨known, hknown⟩ := ih hfresh
    obtain ⟨v, hv⟩ : ∃ v, Value.property entry (js "sid") = .ok v := by
      cases entry
      case undefined | null => cases hentry
      all_goals exact ⟨_, rfl⟩
    rw [hasSid, hv, ok_bind]
    split_ifs
    · exact ⟨true, rfl⟩
    · exact ⟨known, hknown⟩

end SecurityVault

namespace Replies

theorem auditLine_ok (entry : Value) : (∃ line, auditLine entry = .ok line) ↔ Loggable entry := by
  have hfalsy {v : Value} (h : v.truthy = false) : v.Printable := by
    cases v <;> trivial
  have hline (t k s : Value) : (∃ line, (do
      let t ← Value.toText (if t.truthy then t else .str [])
      let k ← Value.toText k
      let s ← Value.toText s
      return (t.drop 5).take 5 ++ js " " ++ k ++ js " (" ++ s ++ js ")" : Except Fault JSString) =
        .ok line) ↔ t.Printable ∧ k.Printable ∧ s.Printable := by
    have ht : (if t.truthy then t else .str []).Printable ↔ t.Printable := by
      split_ifs with h
      · rfl
      · exact iff_of_true trivial (hfalsy (Bool.eq_false_of_not_eq_true h))
    rw [← ht, ← Value.toText_ok, ← Value.toText_ok, ← Value.toText_ok]
    constructor
    · rintro ⟨line, h⟩
      obtain ⟨t', ht', h⟩ := bind_eq_ok.mp h
      obtain ⟨k', hk', h⟩ := bind_eq_ok.mp h
      obtain ⟨s', hs', -⟩ := bind_eq_ok.mp h
      exact ⟨⟨t', ht'⟩, ⟨k', hk'⟩, s', hs'⟩
    · rintro ⟨⟨t', ht'⟩, ⟨k', hk'⟩, s', hs'⟩
      exact ⟨_, bind_eq_ok.mpr ⟨t', ht', bind_eq_ok.mpr ⟨k', hk', bind_eq_ok.mpr ⟨s', hs', rfl⟩⟩⟩⟩
  unfold auditLine Loggable
  cases entry with
  | undefined | null => simp [Value.property]
  | obj ps =>
    simp only [Value.property, ok_bind, List.forall_mem_cons, List.not_mem_nil, false_implies,
      implies_true, and_true]
    exact hline _ _ _
  | _ =>
    simp only [Value.property, ok_bind, iff_true]
    exact (hline .undefined .undefined .undefined).mpr ⟨trivial, trivial, trivial⟩

theorem auditLog_ok (entries : List Value) :
    (∃ text, auditLog entries = .ok text) ↔ ∀ entry ∈ entries, Loggable entry := by
  unfold auditLog
  split_ifs with h
  · simp [h]
  · constructor
    · rintro ⟨text, htext⟩
      obtain ⟨lines, hlines, -⟩ := bind_eq_ok.mp htext
      intro entry hmem
      obtain ⟨i, hi, rfl⟩ := List.getElem_of_mem hmem
      have hall := mapM_eq_ok.mp hlines
      exact (auditLine_ok _).mp ⟨_, hall.get hi (hall.length_eq ▸ hi)⟩
    · intro hall
      obtain ⟨lines, hlines⟩ := exists_mapM fun entry he => (auditLine_ok entry).mpr (hall entry he)
      exact ⟨_, bind_eq_ok.mpr ⟨lines, hlines, rfl⟩⟩

end Replies

/-! ## The operations -/

section Operations

variable [Platform] {α β : Type}

namespace SecurityVault

def Ready (w : World) : Prop :=
  w.env.Writes ∧ Config.isMissing (w.store .verifierKey) = false

/-- Nothing makes the operation throw. -/
abbrev Sure (p : Action α) : Prop := p.Triple host Ready (fun _ => Ready) fun _ => False

omit [Platform] in
theorem Sure.returns {p : Action α} (hp : Sure p) {w : World} (hw : Ready w) :
    Returns (p.run host w) := by
  cases hout : (p.run host w).outcome with
  | ok a => exact ⟨a, hout⟩
  | error e => exact ((hp w hw).2 e hout).elim

omit [Platform] in
theorem sure_of_exec {p : Action α} (h : ∀ w, Ready w → ∃ a v, p.exec host w = (.ok a, v) ∧ Ready v) :
    Sure p := by
  intro w hw
  obtain ⟨a, v, hp, hv⟩ := h w hw
  injection hp with hout hstate
  rw [hout, hstate]
  exact ⟨fun _ _ => hv, by rintro _ ⟨⟩⟩

omit [Platform] in
theorem sure_ret (a : α) : Sure (.ret a : Action α) := .ret fun _ h => h

omit [Platform] in
theorem sure_getProperty (k : Key) : Sure (getProperty k) :=
  sure_of_exec fun w hw => ⟨_, w, exec_getProperty .., hw⟩

omit [Platform] in
theorem sure_setProperty {k : Key} (hk : k ≠ .verifierKey) (text : JSString) :
    Sure (setProperty k text) := by
  refine sure_of_exec fun w hw => ⟨(), _, exec_setProperty _ _ _ (hw.1 0), fun i => hw.1 (i + 1), ?_⟩
  simpa [Store.set_ne _ _ hk.symm] using hw.2

omit [Platform] in
theorem sure_console (level : Level) (text : JSString) : Sure (console level text) :=
  sure_of_exec fun w hw => ⟨(), w, rfl, hw⟩

omit [Platform] in
theorem sure_withScriptLock {n : ℕ} {mutate onBusy : Action α} (hm : Sure mutate) (hb : Sure onBusy) :
    Sure (Locks.withScriptLock n mutate onBusy) := by
  intro w hw
  rw [run_withScriptLock]
  split_ifs
  · exact hm ⟨w.store, w.env.afterLock⟩ hw
  · exact hb ⟨w.store, w.env.afterLock⟩ hw

theorem sure_appendAudit (kind : JSString) (sender : Option JSString) :
    Sure (appendAudit kind sender) := by
  refine sure_of_exec fun w hw => ?_
  obtain ⟨text, hexec⟩ := exec_appendAudit kind sender hw.1 hw.2
  refine ⟨(), _, hexec, fun i => hw.1 (i + 1), ?_⟩
  simpa using hw.2

theorem sure_recordAudit (kind : JSString) (sender : Option JSString) :
    Sure (recordAudit kind sender) :=
  sure_withScriptLock (sure_appendAudit kind sender) (sure_ret ())

omit [Platform] in
theorem sure_currentSequence : Sure currentSequence :=
  (sure_getProperty _).bind fun _ => sure_ret _

omit [Platform] in
theorem sure_nextSequence : Sure nextSequence := by
  refine sure_withScriptLock ?_ (sure_ret none)
  exact sure_currentSequence.bind fun _ =>
    (sure_setProperty (by decide) _).bind fun _ => sure_ret _

omit [Platform] in
theorem sure_isSealed : Sure isSealed := (sure_getProperty _).bind fun _ => sure_ret _

theorem sure_registerFailure (sender : Option JSString) : Sure (registerFailure sender) := by
  have hread (b : Bool) : Sure (isSealed.bind fun flag => .ret (⟨flag, b⟩ : Failure)) :=
    sure_isSealed.bind fun _ => sure_ret _
  refine sure_withScriptLock ?_ (hread false)
  refine (sure_getProperty _).bind fun raw => (sure_setProperty (by decide) _).bind fun _ =>
    (sure_appendAudit _ _).bind fun _ => ?_
  have hreaches (x : Number) : Sure (reachesSeal x) := by
    unfold reachesSeal
    split_ifs
    · exact sure_isSealed.bind fun _ => sure_ret _
    · exact sure_ret _
  refine (hreaches _).bind fun seals => ?_
  split_ifs
  · exact (sure_setProperty (by decide) _).bind fun _ => (sure_appendAudit _ _).bind fun _ =>
      (sure_console _ _).bind fun _ => sure_ret _
  · exact hread false

theorem sure_unsealBot (sender : Option JSString) : Sure (unsealBot sender) := by
  refine sure_withScriptLock ?_ ((sure_console _ _).bind fun _ => sure_ret _)
  exact (sure_setProperty (by decide) _).bind fun _ => (sure_setProperty (by decide) _).bind fun _ =>
    (sure_appendAudit _ _).bind fun _ => sure_ret _

theorem returns_checkAndRecordSid_str {w : World} (hw : w.env.Writes) (hl : w.env.lock 0 = true)
    {sid : JSString} (hs : trim sid ≠ []) :
    Returns ((checkAndRecordSid (.str sid)).run host w) ↔
      ∀ entry ∈ w.store.array .secSeenSids, Datable entry := by
  rw [← keepFresh_ok (w.env.clock 0)]
  cases hk : keepFresh (w.env.clock 0) (w.store.array .secSeenSids) with
  | error f =>
    have hthrows : (checkAndRecordSid (.str sid)).exec host w =
        (.error (Platform.faultError f), ⟨w.store, w.env.afterLock.afterClock⟩) := by
      simp only [checkAndRecordSid, hs, ↓reduceIte, exec_withScriptLock, hl, Prog.bind_eq,
        Prog.exec_bind, exec_now, Env.afterLock_clock, exec_readJson, Prog.next_ok, hk, exec_eval]
      rfl
    rw [returns_iff hthrows]
    simp
  | ok fresh =>
    obtain ⟨known, hknown⟩ := hasSid_ok (trim sid) (truthy_of_keepFresh hk)
    have hreads : ∃ v, (checkAndRecordSid (.str sid)).exec host w = (.ok known, v) := by
      simp only [checkAndRecordSid, hs, ↓reduceIte, exec_withScriptLock, hl, Prog.bind_eq,
        Prog.exec_bind, exec_now, Env.afterLock_clock, exec_readJson, Prog.next_ok, hk, exec_eval_ok,
        hknown]
      cases known with
      | true => exact ⟨_, rfl⟩
      | false =>
        simp only [Bool.false_eq_true, ↓reduceIte]
        exact ⟨_, Prog.exec_bind_ok host (exec_setProperty _ _ _ (hw 0))⟩
    obtain ⟨v, hv⟩ := hreads
    rw [returns_iff hv]
    simp

theorem returns_checkAndRecordSid {w : World} (hw : w.env.Writes) (hl : w.env.lock 0 = true) :
    (∀ sid, Returns ((checkAndRecordSid sid).run host w)) ↔
      ∀ entry ∈ w.store.array .secSeenSids, Datable entry := by
  constructor
  · intro h
    exact (returns_checkAndRecordSid_str hw hl (by decide)).mp (h (.str (js "SM1")))
  · intro h sid
    cases sid with
    | str s =>
      by_cases hs : trim s = []
      · refine ⟨true, ?_⟩
        rw [checkAndRecordSid, if_pos hs]
        rfl
      · exact (returns_checkAndRecordSid_str hw hl hs).mpr h
    | _ => exact ⟨true, rfl⟩

theorem returns_log (w : World) :
    Returns (((recentAudit 8).bind fun entries => eval (Replies.auditLog entries)).run host w) ↔
      ∀ entry ∈ lastOf 8 (w.store.array .secAudit), Loggable entry := by
  have hread : (recentAudit 8).exec host w = (.ok (lastOf 8 (w.store.array .secAudit)).reverse, w) :=
    Prog.exec_bind_ok host (exec_readJson .secAudit w)
  have hexec := Prog.exec_bind_ok host (f := fun entries => eval (Replies.auditLog entries)) hread
  rw [exec_eval] at hexec
  rw [returns_iff hexec]
  have hall : (∀ entry ∈ lastOf 8 (w.store.array .secAudit), Loggable entry) ↔
      ∀ entry ∈ (lastOf 8 (w.store.array .secAudit)).reverse, Loggable entry := by
    simp only [List.mem_reverse]
  rw [hall, ← Replies.auditLog_ok]
  cases Replies.auditLog (lastOf 8 (w.store.array .secAudit)).reverse with
  | ok text => simp [Except.mapError]
  | error f => simp [Except.mapError]

/-- **What damaged state does to the vault.** All returns, whatever the four properties hold, unless a
stored time has no text or one of the last eight audit entries cannot be put into words. -/
theorem damaged_returns (w : World) (hc : Configured w.store) (hw : w.env.Writes)
    (hl : ∀ i, w.env.lock i = true) :
    (Returns (currentSequence.run host w) ∧ Returns (nextSequence.run host w) ∧
      (∀ sid, Returns ((checkAndRecordSid sid).run host w)) ∧
      (∀ sender, Returns ((registerFailure sender).run host w)) ∧
      (∀ sender, Returns ((unsealBot sender).run host w)) ∧
      (∀ kind sender, Returns ((recordAudit kind sender).run host w)) ∧
      Returns (((recentAudit 8).bind fun entries => eval (Replies.auditLog entries)).run host w)) ↔
    (∀ entry ∈ w.store.array .secSeenSids, Datable entry) ∧
      ∀ entry ∈ lastOf 8 (w.store.array .secAudit), Loggable entry := by
  have hready : Ready w := ⟨hw, hc .verifierKey (by decide)⟩
  rw [← returns_log, ← returns_checkAndRecordSid hw (hl 0)]
  constructor
  · rintro ⟨-, -, hsid, -, -, -, hlog⟩
    exact ⟨hsid, hlog⟩
  · rintro ⟨hsid, hlog⟩
    exact ⟨sure_currentSequence.returns hready, sure_nextSequence.returns hready, hsid,
      fun sender => (sure_registerFailure sender).returns hready,
      fun sender => (sure_unsealBot sender).returns hready,
      fun kind sender => (sure_recordAudit kind sender).returns hready, hlog⟩

end SecurityVault
end Operations

namespace SecurityVault
open AppsScript

def damagedAudit : World := ⟨sampleStore.set .secAudit (js "[null]"), sampleEnv⟩

def damagedSids : World :=
  ⟨sampleStore.set .secSeenSids (js "[\x7b\"sid\":\"SM0\",\"t\":\x7b\"toString\":0\x7d\x7d]"), sampleEnv⟩

theorem damaged_throws :
    (¬ ∀ w : World, Configured w.store → w.env.Writes → (∀ i, w.env.lock i = true) →
      Returns (((recentAudit 8).bind fun entries => eval (Replies.auditLog entries)).run host w)) ∧
    ¬ ∀ w : World, Configured w.store → w.env.Writes → (∀ i, w.env.lock i = true) →
      Returns ((checkAndRecordSid (.str (js "SM1"))).run host w) := by
  constructor
  · intro h
    obtain ⟨text, htext⟩ := h damagedAudit (by decide) (fun _ => rfl) fun _ => rfl
    have hfails : (((recentAudit 8).bind fun entries => eval (Replies.auditLog entries)).run host
        damagedAudit).outcome.isOk = false := by decide +kernel
    rw [htext] at hfails
    cases hfails
  · intro h
    obtain ⟨known, hknown⟩ := h damagedSids (by decide) (fun _ => rfl) fun _ => rfl
    have hfails : ((checkAndRecordSid (.str (js "SM1"))).run host damagedSids).outcome.isOk =
        false := by decide +kernel
    rw [hknown] at hfails
    cases hfails

def oddWorld : World :=
  ⟨(sampleStore.set .secAudit (js "[7,\x7b\x7d]")).set .secSeenSids (js "[null,[],7]"), sampleEnv⟩

theorem damaged_returns_odd : Returns ((checkAndRecordSid (.str (js "SM1"))).run host oddWorld) :=
  ((damaged_returns oddWorld (by decide) (fun _ => rfl) fun _ => rfl).mpr
    ⟨by decide +kernel, by decide +kernel⟩).2.2.1 _

end SecurityVault
end Spazito
