import Spazito.GateTurns

set_option autoImplicit false

/-!
# The course of one request

Each request, read off its program: which sections it has under the lock, which acts these are, and
what it decides on what they found.
-/
namespace Spazito
open Ecma Script

namespace SecurityGate

variable {ι α β : Type} {M : ι → (o : Op) → Store → o.Ret → Prop} {s₀ : Store} {i : ι}
  {ss : List (Section GAS JSError α ι GateState)} {x : Except JSError α}

def turnOf (s : Section GAS JSError α ι GateState) (a : Act) : GateTurn ι := ⟨s.tid, s.entry, a⟩

theorem turnOf_does {s : Section GAS JSError α ι GateState} {a : Act}
    (h : s.exit = a.apply s.entry) : s.Does Act.apply (turnOf s a) := ⟨rfl, rfl, h⟩

abbrev Did (ss : List (Section GAS JSError α ι GateState)) (ts : List (GateTurn ι)) : Prop :=
  List.Forall₂ (Section.Does Act.apply) ss ts

abbrev Sound (M : ι → (o : Op) → Store → o.Ret → Prop) (s₀ : Store)
    (ss : List (Section GAS JSError α ι GateState)) : Prop :=
  ∀ s ∈ ss, s.Closed (raceEffect M) (kept s₀) gateState

theorem Sound.tail {s : Section GAS JSError α ι GateState} (h : Sound M s₀ (s :: ss)) :
    Sound M s₀ ss := fun t ht => h t (List.mem_cons_of_mem s ht)

theorem waitedOut_timeout (n : ℕ) : waitedOut (.console .warn
    (js "Could not acquire the script lock within " ++ decimal n ++ js "ms; taking the busy path.")) =
      true := by
  have hopen : js "Could not acquire the script lock within " =
      js "Could not acquire the script lock" ++ js " within " := by decide
  rw [waitedOut, List.isPrefixOf_iff_prefix, hopen]
  simp only [List.append_assoc]
  exact List.prefix_append _ _

theorem finished_locked {n : ℕ} {mutate onBusy : Action β} {f : β → Action α}
    (hm : mutate.Lockless) (hsound : Sound M s₀ ss)
    (h : Finished (raceEffect M) (kept s₀) i ((Locks.withScriptLock n mutate onBusy).bind f) ss x) :
    ∃ s rest y, ss = s :: rest ∧
      Ends (raceEffect M) (kept s₀) gateState i s.entry mutate s.exit y ∧
      Finished (raceEffect M) (kept s₀) i ((Prog.orRaise y).bind f) rest x := by
  rw [withScriptLock_eq] at h
  rcases Finished.locked hm hsound h with hbusy | ⟨s, rest, y, hss, -, hbody, hrest⟩
  · rw [Prog.bind_assoc] at hbusy
    obtain ⟨y, hlog, -⟩ := Finished.bind (lockless_console _ _) hbusy
    obtain ⟨s, r, s', -, -, heff, -⟩ := ends_perform.mp hlog
    have hquiet := heff.2.1.1
    rw [waitedOut_timeout] at hquiet
    cases hquiet
  · exact ⟨s, rest, y, hss, hbody, hrest⟩

/-! ## The calls of the vault -/

abbrev foundZero (M : ι → (o : Op) → Store → o.Ret → Prop) (i : ι) : Prop :=
  ∃ s, M i (.getProperty .secFailures) s (s .secFailures) ∧
    SecurityVault.countOrZero (s .secFailures) = .finite 0

theorem finished_reset {a : α} (hsound : Sound M s₀ ss) (h : Finished (raceEffect M) (kept s₀) i
      (SecurityVault.resetFailures.bind fun _ => .ret a) ss x) :
    x = .ok a ∧ ∃ ts, Did ss ts ∧ Clearing (foundZero M i) ts := by
  rw [SecurityVault.resetFailures, Prog.bind_eq, Prog.bind_assoc] at h
  obtain ⟨y, hread, h⟩ := Finished.bind (lockless_getProperty _) h
  obtain ⟨-, s, -, hM, -, rfl⟩ := ends_read hread
  rw [Prog.orRaise_ok_bind] at h
  split_ifs at h with hzero
  · obtain ⟨rfl, rfl⟩ := finished_orRaise (y := .ok a) h
    exact ⟨rfl, [], .nil, .none ⟨s, hM, hzero⟩⟩
  · obtain ⟨s, rest, y, rfl, hbody, h⟩ := finished_locked (lockless_setProperty _ _) hsound h
    obtain ⟨hexit, rfl⟩ := ends_resetBody hbody
    obtain ⟨rfl, rfl⟩ := finished_orRaise (y := .ok a) h
    exact ⟨rfl, [turnOf s .reset], .cons (turnOf_does hexit) .nil, .reset _ rfl⟩

variable [Platform]

/-- A blank sid counts as replayed without the lock; another is looked up and recorded under it. -/
theorem finished_record {m : Option JSString} {f : Bool → Action α} (hsound : Sound M s₀ ss)
    (h : Finished (raceEffect M) (kept s₀) i
      ((SecurityVault.checkAndRecordSid (Value.ofOption m)).bind f) ss x) :
    (SecurityVault.sidOf m = none ∧ Finished (raceEffect M) (kept s₀) i (f true) ss x) ∨
    ∃ sid now s rest, SecurityVault.sidOf m = some sid ∧ ss = s :: rest ∧
      s.exit = Act.apply (.record sid now) s.entry ∧ Finished (raceEffect M) (kept s₀) i
        ((Prog.orRaise (toJSError (s.entry.replayed sid now))).bind f) rest x := by
  cases m with
  | none => exact .inl ⟨rfl, h⟩
  | some text =>
    by_cases hblank : trim text = []
    · rw [Value.ofOption, SecurityVault.checkAndRecordSid, if_pos hblank] at h
      exact .inl ⟨by simp [SecurityVault.sidOf, hblank], h⟩
    · rw [Value.ofOption, SecurityVault.checkAndRecordSid_eq hblank] at h
      obtain ⟨s, rest, y, rfl, hbody, h⟩ :=
        finished_locked (SecurityVault.lockless_recordBody (trim text)) hsound h
      obtain ⟨now, hexit, rfl⟩ := ends_recordBody hbody
      exact .inr ⟨trim text, now, s, rest, by simp [SecurityVault.sidOf, hblank], rfl, hexit, h⟩

theorem finished_audit (hc : Configured s₀) {kind : JSString} {sender : Option JSString} {a : α}
    (hsound : Sound M s₀ ss) (h : Finished (raceEffect M) (kept s₀) i
      ((SecurityVault.recordAudit kind sender).bind fun _ => .ret a) ss x) :
    x = .ok a ∧ ∃ t : GateTurn ι, t.act = .audit ∧ Did ss [t] := by
  obtain ⟨s, rest, y, rfl, hbody, h⟩ :=
    finished_locked (SecurityVault.lockless_appendAudit kind sender) hsound h
  obtain ⟨hexit, rfl⟩ := ends_appendAudit hc hbody
  obtain ⟨rfl, rfl⟩ := finished_orRaise (y := .ok a) h
  exact ⟨rfl, turnOf s .audit, rfl, .cons (turnOf_does hexit) .nil⟩

theorem finished_count (hc : Configured s₀) {sender : Option JSString}
    {f : SecurityVault.Failure → Action α} (hsound : Sound M s₀ ss)
    (h : Finished (raceEffect M) (kept s₀) i ((SecurityVault.registerFailure sender).bind f) ss x) :
    ∃ s rest flag, ss = s :: rest ∧ s.exit = Act.apply .count s.entry ∧
      Finished (raceEffect M) (kept s₀) i (f ⟨flag, s.entry.seals⟩) rest x := by
  rw [SecurityVault.registerFailure_eq] at h
  obtain ⟨s, rest, y, rfl, hbody, h⟩ := finished_locked (SecurityVault.lockless_countBody sender) hsound h
  obtain ⟨hexit, flag, rfl⟩ := ends_countBody hc hbody
  exact ⟨s, rest, flag, rfl, hexit, h⟩

theorem finished_rearm (hc : Configured s₀) {sender : Option JSString} {f : Bool → Action α}
    (hsound : Sound M s₀ ss)
    (h : Finished (raceEffect M) (kept s₀) i ((SecurityVault.unsealBot sender).bind f) ss x) :
    ∃ s rest, ss = s :: rest ∧ s.exit = Act.apply .rearm s.entry ∧
      Finished (raceEffect M) (kept s₀) i (f true) rest x := by
  obtain ⟨s, rest, y, rfl, hbody, h⟩ := finished_locked (SecurityVault.lockless_rearmBody sender) hsound h
  obtain ⟨hexit, rfl⟩ := ends_rearmBody hc hbody
  exact ⟨s, rest, rfl, hexit, h⟩

/-! ## The gate -/

/-- `authorize`, once the flag is read. -/
def afterFlag (params : Parameters) (isSealed : Bool) : Action Decision := do
  if isSealed then
    if ← tryUnseal params then
      SecurityVault.resetFailures
      return ⟨true, false⟩
    else return ⟨false, false⟩
  else
    let tokenOk ← matchesToken params
    let fromOk ← matchesRecipient params
    if !(tokenOk && fromOk) then
      console .warn (js "Webhook request rejected by the security gate (silent 200 returned).")
      if tokenOk then
        let failure ← SecurityVault.registerFailure params.sender
        return ⟨false, failure.justSealed⟩
      else return ⟨false, false⟩
    else if ← SecurityVault.checkAndRecordSid (Value.ofOption params.messageSid) then
      console .warn (js "Webhook request rejected: repeated or missing MessageSid " ++
        js "(replay protection).")
      SecurityVault.recordAudit (js "replay") params.sender
      return ⟨false, false⟩
    else
      SecurityVault.resetFailures
      return ⟨true, false⟩

theorem authorize_eq (e : Option WebhookEvent) : authorize e =
    .perform (.op (.getProperty .secSealed)) fun (r : Option JSString) =>
      afterFlag (paramsOf e) (decide (r = some (js "true"))) := rfl

theorem finished_comparisons (hc : Configured s₀) {params : Parameters} {f : Bool → Action α}
    (h : Finished (raceEffect M) (kept s₀) i ((tryUnseal params).bind f) ss x) :
    let q := showingOf params s₀
    if q.unlocks && q.tokenOk && q.fromOk then Finished (raceEffect M) (kept s₀) i
      ((SecurityVault.checkAndRecordSid (Value.ofOption params.messageSid)).bind fun replayed =>
        if replayed then f false else
          (SecurityVault.unsealBot params.sender).bind fun ok =>
            if ok then (console .log (js "SecurityGate: unlock accepted — the bot is re-armed.")).bind
              fun _ => f true
            else f false) ss x
    else Finished (raceEffect M) (kept s₀) i (f false) ss x := by
  intro q
  have hsecret : s₀.secret .unlockSecret ≠ [] := hc.secret_ne_nil (by decide)
  by_cases hi : (CommandParser.parse (Value.ofOption params.body)).type ≠ .unlock ∨
      (CommandParser.parse (Value.ofOption params.body)).arg.getD [] = []
  · rw [tryUnseal, if_pos hi] at h
    rw [unlocks_false hsecret hi, Bool.false_and, Bool.false_and, if_neg Bool.false_ne_true]
    exact h
  · have hphrase : _ = q.unlocks := equals_phrase hsecret (not_not.mp (not_or.mp hi).1)
    rw [tryUnseal, if_neg hi, Prog.bind_eq, Prog.bind_assoc] at h
    obtain ⟨y, hrequire, h⟩ := Finished.bind (quiet_require _).lockless h
    obtain ⟨-, rfl⟩ := ends_require (by decide) (hc _ (by decide)) hrequire
    rw [Prog.orRaise_ok_bind, hphrase, Prog.bind_eq, Prog.bind_assoc] at h
    obtain ⟨y, htoken, h⟩ := Finished.bind (quiet_matchesToken params).lockless h
    obtain ⟨-, rfl⟩ := ends_matchesToken hc htoken
    rw [Prog.orRaise_ok_bind, Prog.bind_eq, Prog.bind_assoc] at h
    obtain ⟨y, hfrom, h⟩ := Finished.bind (quiet_matchesRecipient params).lockless h
    obtain ⟨-, rfl⟩ := ends_matchesRecipient hc hfrom
    rw [Prog.orRaise_ok_bind] at h
    cases hq : q.unlocks && q.tokenOk && q.fromOk with
    | false =>
      rw [if_neg Bool.false_ne_true]
      have hall : (!(q.unlocks && (showingOf params s₀).tokenOk && (showingOf params s₀).fromOk)) =
          true := by rw [Bool.not_eq_true', ← hq]
      rw [if_pos hall] at h
      exact h
    | true =>
      rw [if_pos rfl]
      have hall : ¬ (!(q.unlocks && (showingOf params s₀).tokenOk && (showingOf params s₀).fromOk)) =
          true := by rw [Bool.not_eq_true', show _ = true from hq]; decide
      rw [if_neg hall, Prog.bind_eq, Prog.bind_assoc] at h
      convert h using 3 with replayed
      cases replayed with
      | true => rfl
      | false =>
        rw [if_neg Bool.false_ne_true, if_neg Bool.false_ne_true, Prog.bind_eq, Prog.bind_assoc]
        congr 1
        funext ok
        cases ok <;> rfl

variable {x : Except JSError Decision} {ss : List (Section GAS JSError Decision ι GateState)}
  {params : Parameters}

theorem finished_sealed (hc : Configured s₀) (hsound : Sound M s₀ ss)
    (h : Finished (raceEffect M) (kept s₀) i (afterFlag params true) ss x) :
    ∃ ts, Did ss ts ∧ Course (showingOf params s₀) (foundZero M i) true ts x := by
  rw [afterFlag, if_pos rfl] at h
  have hcomparisons := finished_comparisons hc h
  dsimp only at hcomparisons
  cases hq : (showingOf params s₀).unlocks && (showingOf params s₀).tokenOk &&
      (showingOf params s₀).fromOk with
  | false =>
    rw [hq, if_neg Bool.false_ne_true] at hcomparisons
    obtain ⟨rfl, rfl⟩ := finished_orRaise (y := .ok refused) hcomparisons
    exact ⟨[], .nil, .ignored hq⟩
  | true =>
    rw [hq, if_pos rfl] at hcomparisons
    obtain ⟨hsid, h⟩ | ⟨sid, now, s, rest, hsid, rfl, hexit, h⟩ :=
      finished_record hsound hcomparisons
    · obtain ⟨rfl, rfl⟩ := finished_orRaise (y := .ok refused) h
      exact ⟨[], .nil, .blankUnlock hq hsid⟩
    · have hrecord : s.Does Act.apply (turnOf s (.record sid now)) := turnOf_does hexit
      have hboth : ((showingOf params s₀).tokenOk && (showingOf params s₀).fromOk) = true := by
        rw [Bool.and_assoc, Bool.and_eq_true] at hq
        exact hq.2
      have hunlocks : (showingOf params s₀).unlocks = true := by
        rw [Bool.and_assoc, Bool.and_eq_true] at hq
        exact hq.1
      cases hr : s.entry.replayed sid now with
      | error f =>
        rw [hr] at h
        obtain ⟨rfl, rfl⟩ := finished_orRaise (y := .error _) h
        exact ⟨[_], .cons hrecord .nil, .damaged true _ hboth (fun _ => hunlocks) hsid rfl hr⟩
      | ok replayed =>
        rw [hr, toJSError, Prog.orRaise_ok_bind] at h
        cases replayed with
        | true =>
          obtain ⟨rfl, rfl⟩ := finished_orRaise (y := .ok refused) h
          exact ⟨[_], .cons hrecord .nil, .replayedUnlock _ hq hsid rfl hr⟩
        | false =>
          rw [if_neg Bool.false_ne_true] at h
          obtain ⟨u, rest, rfl, hrearm, h⟩ := finished_rearm hc hsound.tail h
          rw [if_pos rfl] at h
          obtain ⟨y, hlog, h⟩ := Finished.bind (lockless_console _ _) h
          obtain ⟨-, rfl⟩ := ends_log hlog
          obtain ⟨rfl, ts, hdid, hclearing⟩ := finished_reset hsound.tail.tail h
          exact ⟨_ :: _ :: ts, .cons hrecord (.cons (turnOf_does hrearm) hdid),
            .rearmed _ _ ts hq hsid rfl hr rfl hclearing⟩

theorem finished_open (hc : Configured s₀) (hsound : Sound M s₀ ss)
    (h : Finished (raceEffect M) (kept s₀) i (afterFlag params false) ss x) :
    ∃ ts, Did ss ts ∧ Course (showingOf params s₀) (foundZero M i) false ts x := by
  rw [afterFlag, if_neg Bool.false_ne_true, Prog.bind_eq] at h
  obtain ⟨y, htoken, h⟩ := Finished.bind (quiet_matchesToken params).lockless h
  obtain ⟨-, rfl⟩ := ends_matchesToken hc htoken
  rw [Prog.orRaise_ok_bind, Prog.bind_eq] at h
  obtain ⟨y, hfrom, h⟩ := Finished.bind (quiet_matchesRecipient params).lockless h
  obtain ⟨-, rfl⟩ := ends_matchesRecipient hc hfrom
  rw [Prog.orRaise_ok_bind] at h
  cases hboth : (showingOf params s₀).tokenOk && (showingOf params s₀).fromOk with
  | false =>
    rw [hboth, Bool.not_false, if_pos rfl] at h
    obtain ⟨y, hlog, h⟩ := Finished.bind (lockless_console _ _) h
    obtain ⟨-, rfl⟩ := ends_log hlog
    rw [Prog.orRaise_ok_bind] at h
    cases htoken : (showingOf params s₀).tokenOk with
    | false =>
      rw [htoken, if_neg Bool.false_ne_true] at h
      obtain ⟨rfl, rfl⟩ := finished_orRaise (y := .ok refused) h
      exact ⟨[], .nil, .ambient htoken⟩
    | true =>
      rw [htoken, if_pos rfl] at h
      rw [htoken, Bool.true_and] at hboth
      obtain ⟨s, rest, flag, rfl, hexit, h⟩ := finished_count hc hsound h
      obtain ⟨rfl, rfl⟩ := finished_orRaise (y := .ok (Decision.mk false s.entry.seals)) h
      exact ⟨[turnOf s .count], .cons (turnOf_does hexit) .nil, .probe _ htoken hboth rfl⟩
  | true =>
    rw [hboth, Bool.not_true, if_neg Bool.false_ne_true] at h
    obtain ⟨hsid, h⟩ | ⟨sid, now, s, rest, hsid, rfl, hexit, h⟩ := finished_record hsound h
    · rw [if_pos rfl] at h
      obtain ⟨y, hlog, h⟩ := Finished.bind (lockless_console _ _) h
      obtain ⟨-, rfl⟩ := ends_log hlog
      obtain ⟨rfl, t, haudit, hdid⟩ := finished_audit hc hsound h
      exact ⟨[t], hdid, .blank t hboth hsid haudit⟩
    · have hrecord : s.Does Act.apply (turnOf s (.record sid now)) := turnOf_does hexit
      cases hr : s.entry.replayed sid now with
      | error f =>
        rw [hr] at h
        obtain ⟨rfl, rfl⟩ := finished_orRaise (y := .error _) h
        exact ⟨[_], .cons hrecord .nil, .damaged false _ hboth nofun hsid rfl hr⟩
      | ok replayed =>
        rw [hr, toJSError, Prog.orRaise_ok_bind] at h
        cases replayed with
        | true =>
          rw [if_pos rfl] at h
          obtain ⟨y, hlog, h⟩ := Finished.bind (lockless_console _ _) h
          obtain ⟨-, rfl⟩ := ends_log hlog
          obtain ⟨rfl, t, haudit, hdid⟩ := finished_audit hc hsound.tail h
          exact ⟨[_, t], .cons hrecord hdid, .replayed _ t hboth hsid rfl hr haudit⟩
        | false =>
          rw [if_neg Bool.false_ne_true] at h
          obtain ⟨rfl, ts, hdid, hclearing⟩ := finished_reset hsound.tail h
          exact ⟨_ :: ts, .cons hrecord hdid, .accepted _ ts hboth hsid rfl hr hclearing⟩

theorem finished_afterFlag (hc : Configured s₀) (hsound : Sound M s₀ ss) {b : Bool}
    (h : Finished (raceEffect M) (kept s₀) i (afterFlag params b) ss x) :
    ∃ ts, Did ss ts ∧ Course (showingOf params s₀) (foundZero M i) b ts x := by
  cases b with
  | true => exact finished_sealed hc hsound h
  | false => exact finished_open hc hsound h

end SecurityGate
end Spazito
