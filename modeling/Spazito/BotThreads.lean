import Spazito.BotGuard
import Spazito.WebhookReplies

set_option autoImplicit false

/-!
# Every execution obeys its guard

Function by function: what each may have changed when it is done.
-/
namespace Spazito
open Ecma Script

/-! ## Looking -/

section Looks

variable {K : Key → Prop} {α β : Type} {p : Action α}

theorem Looks.bind {f : α → Action β} (hp : Looks K p) (hf : ∀ a, Looks K (f a)) :
    Looks K (p.bind f) := Prog.Within.bind hp hf

theorem looks_ret (a : α) : Looks K (.ret a) := trivial

theorem looks_getProperty {k : Key} (hk : K k) : Looks K (getProperty k) :=
  ⟨.inl ⟨k, hk, rfl⟩, fun _ => trivial⟩

theorem looks_console (level : Level) (text : JSString) : Looks K (console level text) :=
  ⟨.inr ⟨level, text, rfl⟩, fun _ => trivial⟩

theorem looks_consoleIf (c : Prop) [Decidable c] (level : Level) (text : JSString) :
    Looks K (consoleIf c level text) := by
  unfold consoleIf
  split_ifs
  · exact looks_console _ _
  · trivial

theorem looks_eval [Platform] (x : Except Fault α) : Looks K (eval x) := by cases x <;> trivial

theorem looks_require {k : Key} (hk : K k) : Looks K (Config.require k) := by
  refine (looks_getProperty hk).bind fun value => ?_
  dsimp only
  split_ifs <;> trivial

theorem looks_optional {k : Key} (hk : K k) : Looks K (Config.optional k) :=
  (looks_getProperty hk).bind fun _ => looks_ret _

theorem looks_readJson {k : Key} (hk : K k) : Looks K (SecurityVault.readJson k) := by
  refine (looks_getProperty hk).bind fun raw => ?_
  cases raw with
  | none => trivial
  | some raw =>
    dsimp only
    split
    · trivial
    · trivial
    · exact (looks_console _ _).bind fun _ => trivial

theorem looks_isSealed (hk : K .secSealed) : Looks K SecurityVault.isSealed :=
  (looks_getProperty hk).bind fun _ => looks_ret _

theorem looks_reachesSeal (failures : Number) (hk : K .secSealed) :
    Looks K (SecurityVault.reachesSeal failures) := by
  unfold SecurityVault.reachesSeal
  split_ifs
  · exact (looks_isSealed hk).bind fun _ => looks_ret _
  · trivial

theorem looks_currentSequence (hk : K .secMsgCount) : Looks K SecurityVault.currentSequence :=
  (looks_getProperty hk).bind fun _ => trivial

theorem looks_isDebugMode (hk : K .debugMode) : Looks K Config.isDebugMode :=
  (looks_optional hk).bind fun _ => trivial

theorem looks_tickers [Platform] (hk : K .watchlist) : Looks K Watchlist.tickers := by
  have hcorrupted : ∀ message raw, Looks K (Watchlist.corrupted message raw) :=
    fun _ _ => (looks_console _ _).bind fun _ => trivial
  refine (looks_getProperty hk).bind fun raw => ?_
  cases raw with
  | none => trivial
  | some raw =>
    dsimp only
    split
    · exact hcorrupted _ _
    · exact (looks_eval _).bind fun _ => (looks_consoleIf _ _ _).bind fun _ =>
        (looks_consoleIf _ _ _).bind fun _ => trivial
    · exact hcorrupted _ _

end Looks

variable [Platform] {s₀ : Store} {ι : Type} {entry : ι → Entry} {i : ι} {past : List Change}

omit [Platform] in
theorem Recorded.mono {past past' : List Change} (h : Recorded past) (hp : past <+: past') :
    Recorded past' := by
  obtain ⟨now, sid, hmem⟩ := h
  exact ⟨now, sid, hp.subset hmem⟩

omit [Platform] in
theorem epoch_le : 0 ≤ 8640000000000000 := Nat.zero_le _

/-- The environment in which the guard looks at a store; looking asks nothing of it. -/
def idleEnv : Env where
  lock _ := false
  write _ := none
  fetch _ _ := .error (newError [])
  clock _ := ⟨0, epoch_le⟩

theorem then_require {k : Key} {β : Type} {f : JSString → Action β}
    {Q : Except JSError β → List Change → Prop} (hk : k ∉ ownKeys)
    (hf : (f (s₀.secret k)).Obeys (botGuard s₀ entry) i Q past none)
    (he : ∀ err, Q (.error err) past) :
    ((Config.require k).bind f).Obeys (botGuard s₀ entry) i Q past none := by
  apply then_looks (looks_require hk) idleEnv
  rw [Prog.exec_of_run host (run_require _ _)]
  dsimp only
  split_ifs
  · exact he _
  · exact hf

/-! ## The vault -/

namespace SecurityVault

theorem inside_appendAudit {kind : JSString} {sender : Option JSString} {s : Store} {β : Type}
    {g : Unit → Action β} {Q : Except JSError β → List Change → Store → Prop}
    (hinv : (botGuard s₀ entry).inv s)
    (hpermits : ∀ now, Permits s₀ (entry i) past
      (.audit (entryOf (s₀.secret .verifierKey) now kind sender)))
    (hg : ∀ text note, (botGuard s₀ entry).inv (s.set .secAudit text) →
      (g ()).ObeysInside (botGuard s₀ entry) i Q (past ++ [.audit note]) (s.set .secAudit text))
    (he : ∀ e, Q (.error e) past s) :
    ((appendAudit kind sender).bind g).ObeysInside (botGuard s₀ entry) i Q past s := by
  unfold appendAudit hashSender
  simp only [Prog.bind_eq, Prog.pure_eq, Prog.bind_assoc]
  apply inside_then_looks (looks_readJson trivial) idleEnv
  rw [exec_readJson]
  refine inside_then_now fun time => ?_
  apply inside_then_looks (looks_require trivial) idleEnv
  rw [Prog.exec_of_run host (run_require _ _)]
  dsimp only
  split_ifs with hmissing
  · exact he _
  · have hsecret : s.secret .verifierKey = s₀.secret .verifierKey := by
      rw [Store.secret, hinv.1 .verifierKey (by decide), Store.secret]
    simp only [Prog.orRaise, Prog.ret_bind, hsecret]
    exact inside_then_write (by decide) hinv (hpermits _) (Bot.does_audit s _) (hg _ _) he

theorem inside_appendAudit_last {kind : JSString} {sender : Option JSString} {s : Store}
    {Q : Except JSError Unit → List Change → Store → Prop} (hinv : (botGuard s₀ entry).inv s)
    (hpermits : ∀ now, Permits s₀ (entry i) past
      (.audit (entryOf (s₀.secret .verifierKey) now kind sender)))
    (hQ : ∀ x past' s', Q x past' s') :
    (appendAudit kind sender).ObeysInside (botGuard s₀ entry) i Q past s := by
  rw [← Prog.bind_ret (appendAudit kind sender)]
  exact inside_appendAudit hinv hpermits (fun _ _ _ => hQ _ _ _) fun _ => hQ _ _ _

theorem obeys_recordAudit {kind : JSString} {sender : Option JSString}
    (hpermits : ∀ now, Permits s₀ (entry i) past
      (.audit (entryOf (s₀.secret .verifierKey) now kind sender))) :
    (recordAudit kind sender).Obeys (botGuard s₀ entry) i (fun _ _ => True) past none :=
  obeys_withScriptLock (fun _ hs => inside_appendAudit_last hs hpermits fun _ _ _ => trivial) trivial

omit [Platform] in
theorem exec_reachesSeal_store {failures : Number} {s : Store} (env : Env) :
    ((reachesSeal failures).exec host ⟨s, env⟩).1 =
      .ok (Number.le (.finite maxFailures) failures && !decide (s .secSealed = some (js "true"))) := by
  unfold reachesSeal
  split_ifs with h
  · simp [Prog.exec_bind, exec_isSealed, h]
  · simp [h]

theorem obeys_registerFailure {e : Option WebhookEvent} (hi : entry i = .doPost e)
    (htoken : (SecurityGate.showingOf (SecurityGate.paramsOf e) s₀).tokenOk = true)
    (hfrom : (SecurityGate.showingOf (SecurityGate.paramsOf e) s₀).fromOk = false) :
    (registerFailure (SecurityGate.paramsOf e).sender).Obeys (botGuard s₀ entry) i
      (fun x past' => ∀ f, x = .ok f → f.justSealed = true → .trip ∈ past') [] none := by
  have hnever {x : Failure} (h : x.justSealed = false) {past' : List Change} :
      ∀ f, (Except.ok x : Except JSError Failure) = .ok f → f.justSealed = true → .trip ∈ past' := by
    rintro f ⟨⟩ hf
    rw [h] at hf
    cases hf
  have hthrows {e : JSError} {past' : List Change} :
      ∀ f, (Except.error e : Except JSError Failure) = .ok f → f.justSealed = true → .trip ∈ past' := by
    rintro f ⟨⟩
  refine obeys_withScriptLock (fun s hs => ?_) ?_
  · simp only [Prog.bind_eq, Prog.pure_eq]
    apply inside_then_looks (looks_getProperty trivial) idleEnv
    rw [exec_getProperty]
    simp only [Prog.orRaise, Prog.ret_bind]
    refine inside_then_write (by decide) hs (hi ▸ ⟨htoken, hfrom, rfl⟩) (Bot.does_countFailure s)
      (fun hs' => ?_) fun _ => hthrows
    refine inside_appendAudit hs' (fun now => hi ▸ ⟨⟨now, rfl⟩, .inl ⟨rfl, rfl⟩⟩) (fun text note hs'' => ?_)
      fun _ => hthrows
    apply inside_then_looks (looks_reachesSeal _ trivial) idleEnv
    rw [exec_reachesSeal_store]
    simp only [Prog.orRaise, Prog.ret_bind]
    split_ifs with htrips
    · rw [Bool.and_eq_true, Bool.not_eq_true', decide_eq_false_iff_not] at htrips
      refine inside_then_write (by decide) hs'' (hi ▸ ⟨note, rfl⟩) (Bot.does_trip ?_ htrips.2)
        (fun hs''' => ?_) fun _ => hthrows
      · obtain ⟨b, hb⟩ := hs.2
        rw [Store.set_ne _ _ (by decide), Store.set_self, hb.countOrZero_next]
        exact htrips.1
      · refine inside_appendAudit hs''' (fun now => hi ▸ ⟨⟨now, rfl⟩, .inr (.inl ⟨rfl, note, rfl⟩)⟩)
          (fun _ _ _ => ?_) fun _ => hthrows
        apply inside_then_looks (looks_console _ _) idleEnv
        exact fun _ _ _ => by simp
    · apply inside_then_looks (p := isSealed) (looks_isSealed trivial) idleEnv
      rw [exec_isSealed]
      exact hnever rfl
  · exact then_readOnly quiet_isSealed (within_isSealed trivial) (fun _ => hnever rfl) fun _ => hthrows

theorem obeys_resetFailures {e : Option WebhookEvent} (hi : entry i = .doPost e)
    (hpast : Admitted past) :
    resetFailures.Obeys (botGuard s₀ entry) i (fun _ past' => Admitted past') past none := by
  unfold resetFailures
  simp only [Prog.bind_eq, Prog.pure_eq]
  refine then_readOnly (quiet_getProperty _) (Footprint.getProperty trivial) (fun raw => ?_)
    fun _ => hpast
  split_ifs
  · exact hpast
  · refine obeys_withScriptLock (fun s hs => ?_) hpast
    rw [← Prog.bind_ret (setProperty _ _)]
    refine inside_then_write (by decide) hs (hi ▸ hpast) (Bot.does_zeroFailures s)
      (fun _ => hpast.snoc rfl) fun _ => hpast

theorem obeys_checkAndRecordSid {e : Option WebhookEvent} (hi : entry i = .doPost e)
    (htoken : (SecurityGate.showingOf (SecurityGate.paramsOf e) s₀).tokenOk = true)
    (hfrom : (SecurityGate.showingOf (SecurityGate.paramsOf e) s₀).fromOk = true) :
    (checkAndRecordSid (Value.ofOption (SecurityGate.paramsOf e).messageSid)).Obeys
      (botGuard s₀ entry) i (fun x past' => x = .ok false ∧ (∃ now sid, past' = [.record now sid]) ∨
        x ≠ .ok false ∧ past' = []) [] none := by
  have hkept {x : Except JSError Bool} (h : x ≠ .ok false) :
      x = .ok false ∧ (∃ now sid, [] = [Change.record now sid]) ∨ x ≠ .ok false ∧ ([] : List Change) = [] :=
    .inr ⟨h, rfl⟩
  cases hm : (SecurityGate.paramsOf e).messageSid with
  | none => exact hkept (by simp)
  | some sid =>
    by_cases hblank : trim sid = []
    · rw [Value.ofOption, checkAndRecordSid, if_pos hblank]
      exact hkept (by simp)
    · rw [Value.ofOption, checkAndRecordSid_eq hblank]
      have hsid : (SecurityGate.showingOf (SecurityGate.paramsOf e) s₀).sid = some (trim sid) := by
        simp [SecurityGate.showingOf, sidOf, hm, hblank]
      refine obeys_withScriptLock (fun s hs => ?_) (hkept (by simp))
      unfold recordBody
      simp only [Prog.bind_eq, Prog.pure_eq]
      refine inside_then_now fun now => ?_
      apply inside_then_looks (looks_readJson trivial) idleEnv
      rw [exec_readJson]
      simp only [Prog.orRaise, Prog.ret_bind]
      cases hfresh : keepFresh now (s.array .secSeenSids) with
      | error f => exact hkept (by simp)
      | ok fresh =>
        cases hseen : hasSid (trim sid) fresh with
        | error f =>
          simp only [eval, hseen, Prog.pure_eq, Prog.throw_eq, Prog.ret_bind, Prog.raise_bind]
          exact hkept (by simp)
        | ok known =>
          simp only [eval, hseen, Prog.pure_eq, Prog.ret_bind]
          cases known with
          | true => exact hkept (by simp)
          | false =>
            refine inside_then_write (by decide) hs (hi ▸ ⟨htoken, hfrom, hsid, rfl⟩)
              (Bot.does_record hfresh hseen) (fun _ => ?_) fun _ => hkept (by simp)
            exact .inl ⟨rfl, now, trim sid, rfl⟩

theorem obeys_unsealBot {e : Option WebhookEvent} (hi : entry i = .doPost e) {now : Time}
    {sid : JSString} (hpast : past = [.record now sid])
    (hunlocks : (SecurityGate.showingOf (SecurityGate.paramsOf e) s₀).unlocks = true) :
    (unsealBot (SecurityGate.paramsOf e).sender).Obeys (botGuard s₀ entry) i
      (fun _ past' => Admitted past') past none := by
  subst hpast
  have hrecorded := admitted_record now sid
  have hreopened : Admitted ([.record now sid] ++ [.reopen]) := hrecorded.snoc rfl
  have hrearmed : Admitted ([.record now sid] ++ [.reopen] ++ [.zeroFailures]) := hreopened.snoc rfl
  refine obeys_withScriptLock (fun s hs => ?_) ?_
  · simp only [Prog.bind_eq, Prog.pure_eq]
    refine inside_then_write (by decide) hs (hi ▸ ⟨hunlocks, now, sid, rfl⟩) (Bot.does_reopen s)
      (fun hs' => ?_) fun _ => hrecorded
    refine inside_then_write (by decide) hs' (hi ▸ hreopened) (Bot.does_zeroFailures _)
      (fun hs'' => ?_) fun _ => hreopened
    refine inside_appendAudit hs'' (fun time => hi ▸
      ⟨⟨time, rfl⟩, .inr (.inr (.inr ⟨rfl, now, sid, rfl⟩))⟩) (fun _ _ _ => hrearmed.snoc rfl)
      fun _ => hrearmed
  · exact then_readOnly (quiet_console _ _) (Footprint.console _ _) (fun _ => hrecorded)
      fun _ => hrecorded

end SecurityVault

/-! ## The gate -/

namespace SecurityGate

theorem then_matchesToken {e : Option WebhookEvent} {β : Type} {f : Bool → Action β}
    {Q : Except JSError β → List Change → Prop}
    (hf : (f (showingOf (paramsOf e) s₀).tokenOk).Obeys (botGuard s₀ entry) i Q past none)
    (he : ∀ err, Q (.error err) past) :
    ((matchesToken (paramsOf e)).bind f).Obeys (botGuard s₀ entry) i Q past none := by
  apply then_looks (p := matchesToken (paramsOf e)) ((looks_require (by decide)).bind fun _ => looks_ret _)
    idleEnv
  rw [Prog.exec_of_run host (run_matchesToken _ _)]
  dsimp only
  split_ifs
  · exact he _
  · exact hf

theorem then_matchesRecipient {e : Option WebhookEvent} {β : Type} {f : Bool → Action β}
    {Q : Except JSError β → List Change → Prop}
    (hf : (f (showingOf (paramsOf e) s₀).fromOk).Obeys (botGuard s₀ entry) i Q past none)
    (he : ∀ err, Q (.error err) past) :
    ((matchesRecipient (paramsOf e)).bind f).Obeys (botGuard s₀ entry) i Q past none := by
  apply then_looks (p := matchesRecipient (paramsOf e))
    ((looks_require (by decide)).bind fun _ => looks_ret _) idleEnv
  rw [Prog.exec_of_run host (run_matchesRecipient _ _)]
  dsimp only
  split_ifs
  · exact he _
  · exact hf

theorem obeys_tryUnseal {e : Option WebhookEvent} (hi : entry i = .doPost e) :
    (tryUnseal (paramsOf e)).Obeys (botGuard s₀ entry) i
      (fun x past' => x = .ok true → Admitted past') [] none := by
  have hno {x : Except JSError Bool} (h : x ≠ .ok true) {past' : List Change} :
      x = .ok true → Admitted past' := fun hx => absurd hx h
  unfold tryUnseal
  simp only [Prog.bind_eq, Prog.pure_eq]
  split_ifs with hintent
  · exact hno (by simp)
  · rw [not_or, not_not] at hintent
    refine then_require (by decide) ?_ fun _ => hno (by simp)
    · refine then_matchesToken ?_ fun _ => hno (by simp)
      refine then_matchesRecipient ?_ fun _ => hno (by simp)
      rw [SecureCompare.equals_str]
      split_ifs with hall
      · exact hno (by simp)
      · simp only [Bool.not_eq_true', Bool.not_eq_false, Bool.and_eq_true, decide_eq_true_eq] at hall
        obtain ⟨⟨hsecret, htoken⟩, hfrom⟩ := hall
        have hunlocks : (showingOf (paramsOf e) s₀).unlocks = true := by
          refine decide_eq_true ⟨hintent.1, ?_⟩
          rw [← hsecret]
          cases harg : (CommandParser.parse (Value.ofOption (paramsOf e).body)).arg with
          | none => exact absurd (by rw [harg]; rfl) hintent.2
          | some arg => rfl
        refine (SecurityVault.obeys_checkAndRecordSid hi htoken hfrom).bind ?_ fun _ _ _ => hno (by simp)
        rintro replayed past' hchecked
        cases replayed with
        | true => exact hno (by simp)
        | false =>
          rcases hchecked with ⟨-, now, sid, rfl⟩ | ⟨hnot, -⟩
          · simp only [Bool.false_eq_true, ↓reduceIte]
            refine (SecurityVault.obeys_unsealBot hi rfl hunlocks).bind (fun flipped past' hpast => ?_)
              fun _ _ _ => hno (by simp)
            split_ifs
            · exact hno (by simp)
            · exact then_readOnly (quiet_console _ _) (Footprint.console _ _)
                (fun _ _ => hpast) fun _ => hno (by simp)
          · exact absurd rfl hnot

/-- An allowed request has recorded its sid, and a notice is due only to the request that trips the
seal. -/
theorem obeys_authorize {e : Option WebhookEvent} (hi : entry i = .doPost e) :
    (authorize e).Obeys (botGuard s₀ entry) i
      (fun x past' => ∀ d, x = .ok d → (d.allowed = true → Admitted past') ∧
        (d.justSealed = true → .trip ∈ past')) [] none := by
  have hthrows {err : JSError} {past' : List Change} : ∀ d : Decision,
      (Except.error err : Except JSError Decision) = .ok d → (d.allowed = true → Admitted past') ∧
        (d.justSealed = true → .trip ∈ past') := by
    rintro d ⟨⟩
  have hsays {d₀ : Decision} {past' : List Change} (ha : d₀.allowed = true → Admitted past')
      (hj : d₀.justSealed = true → .trip ∈ past') : ∀ d : Decision,
      (Except.ok d₀ : Except JSError Decision) = .ok d → (d.allowed = true → Admitted past') ∧
        (d.justSealed = true → .trip ∈ past') := by
    rintro d ⟨⟩
    exact ⟨ha, hj⟩
  have hallows (past' : List Change) (hpast : Admitted past') :
      (SecurityVault.resetFailures.bind fun _ => (Prog.ret ⟨true, false⟩ : Action Decision)).Obeys
        (botGuard s₀ entry) i (fun x past' => ∀ d, x = .ok d → (d.allowed = true → Admitted past') ∧
          (d.justSealed = true → .trip ∈ past')) past' none := by
    refine (SecurityVault.obeys_resetFailures hi hpast).bind (fun _ _ hrec => ?_) fun _ _ _ => hthrows
    exact hsays (fun _ => hrec) (by simp)
  unfold authorize
  simp only [Prog.bind_eq, Prog.pure_eq]
  refine then_readOnly SecurityVault.quiet_isSealed (SecurityVault.within_isSealed trivial)
    (fun isSealed => ?_) fun _ => hthrows
  split_ifs
  · refine (obeys_tryUnseal hi).bind ?_ fun _ _ _ => hthrows
    rintro unsealed past' hpast
    cases unsealed with
    | true => exact hallows past' (hpast rfl)
    | false => exact hsays (by simp) (by simp)
  · refine then_matchesToken ?_ fun _ => hthrows
    refine then_matchesRecipient ?_ fun _ => hthrows
    cases htoken : (showingOf (paramsOf e) s₀).tokenOk <;>
      cases hfrom : (showingOf (paramsOf e) s₀).fromOk <;>
      simp only [Bool.and_self, Bool.and_true, Bool.and_false, Bool.not_false, Bool.not_true,
        Bool.false_eq_true, ↓reduceIte]
    case true.true =>
      refine (SecurityVault.obeys_checkAndRecordSid hi htoken hfrom).bind ?_ fun _ _ _ => hthrows
      rintro replayed past' hchecked
      cases replayed with
      | true =>
        rcases hchecked with ⟨hnot, -⟩ | ⟨-, rfl⟩
        · cases hnot
        · refine then_readOnly (quiet_console _ _) (Footprint.console _ _) (fun _ => ?_) fun _ => hthrows
          refine (SecurityVault.obeys_recordAudit fun now => hi ▸
            ⟨⟨now, rfl⟩, .inr (.inr (.inl ⟨rfl, htoken, hfrom, rfl⟩))⟩).bind (fun _ _ _ => ?_)
              fun _ _ _ => hthrows
          exact hsays (by simp) (by simp)
      | false =>
        rcases hchecked with ⟨-, now, sid, rfl⟩ | ⟨hnot, -⟩
        · exact hallows _ (admitted_record now sid)
        · exact absurd rfl hnot
    case true.false =>
      refine then_readOnly (quiet_console _ _) (Footprint.console _ _) (fun _ => ?_) fun _ => hthrows
      refine (SecurityVault.obeys_registerFailure hi htoken hfrom).bind (fun failure _ htrip => ?_)
        fun _ _ _ => hthrows
      exact hsays (by simp) (htrip failure rfl)
    all_goals
      refine then_readOnly (quiet_console _ _) (Footprint.console _ _) (fun _ => ?_) fun _ => hthrows
      exact hsays (by simp) (by simp)

end SecurityGate

/-! ## The watchlist -/

namespace Watchlist

theorem inside_then_tickers {s : Store} {a : Tracked} {β : Type} {f : List JSString → Action β}
    {Q : Except JSError β → List Change → Store → Prop} (ha : Represents a (stored s))
    (hf : (f a.tickers).ObeysInside (botGuard s₀ entry) i Q past s) :
    (tickers.bind f).ObeysInside (botGuard s₀ entry) i Q past s := by
  apply inside_then_looks (looks_tickers trivial) idleEnv
  rw [Prog.exec_of_run host (run_tickers (w := ⟨s, idleEnv⟩) ha)]
  exact hf

theorem then_tickers {β : Type} {f : List JSString → Action β} {Q : Except JSError β → List Change → Prop}
    (hf : ∀ ts, (∀ t ∈ ts, Tickers.Canonical t) → (f ts).Obeys (botGuard s₀ entry) i Q past none) :
    (tickers.bind f).Obeys (botGuard s₀ entry) i Q past none := by
  rw [tickers_eq, Prog.bind_assoc]
  refine ⟨trivial, ?_⟩
  rintro s r s' ⟨-, b, hb⟩ ⟨rfl, rfl⟩
  refine ⟨rfl, ?_⟩
  change ((tickersFrom (stored s').1).bind f).Obeys (botGuard s₀ entry) i Q past none
  rw [tickersFrom_eq hb.tracked]
  exact hf b.tracked.tickers b.tracked.roster.admitted

theorem obeys_add {raw : Value} {t : JSString} (hn : Tickers.normalize raw = .ok t)
    (hpermits : Permits s₀ (entry i) past (.add t)) :
    (add raw).Obeys (botGuard s₀ entry) i (fun _ _ => True) past none := by
  unfold add
  simp only [hn, Tickers.isValid_normalized hn, eval, Prog.bind_eq, Prog.pure_eq, Prog.ret_bind]
  split_ifs with hvalid
  · trivial
  · have hc : Tickers.Canonical t := by simpa using hvalid
    refine obeys_withScriptLock (fun s hs => ?_) trivial
    obtain ⟨b, hb⟩ := hs.2
    refine inside_then_tickers hb.tracked ?_
    split_ifs with hmem hfull
    · trivial
    · trivial
    · have hnew : t ∉ b.tracked.tickers := by simpa using hmem
      exact inside_then_write (by decide) hs hpermits
        (Bot.does_add hb.tracked hc hnew (Nat.lt_of_not_le hfull)) (fun _ => trivial) fun _ => trivial

theorem obeys_remove {raw : Value} {t : JSString} (hn : Tickers.normalize raw = .ok t)
    (hpermits : Permits s₀ (entry i) past (.remove t)) :
    (remove raw).Obeys (botGuard s₀ entry) i (fun _ _ => True) past none := by
  unfold remove
  simp only [hn, eval, Prog.bind_eq, Prog.pure_eq, Prog.ret_bind]
  refine obeys_withScriptLock (fun s hs => ?_) trivial
  obtain ⟨b, hb⟩ := hs.2
  refine inside_then_tickers hb.tracked ?_
  split_ifs with hmem
  · trivial
  · have htracked : t ∈ b.tracked.tickers := by simpa using hmem
    exact inside_then_write (by decide) hs hpermits (Bot.does_remove hb.tracked htracked)
      (fun _ => trivial) fun _ => trivial

theorem obeys_setPaused {paused : Bool} (hpermits : Permits s₀ (entry i) past (.setPaused paused)) :
    (setPaused paused).Obeys (botGuard s₀ entry) i (fun _ _ => True) past none := by
  refine obeys_withScriptLock (fun s hs => ?_) trivial
  exact inside_then_write (by decide) hs hpermits (Bot.does_setPaused s paused) (fun _ => trivial)
    fun _ => trivial

end Watchlist

/-! ## The webhook -/

namespace CommandHandler

variable {e : Option WebhookEvent}

theorem obeys_send {text : JSString} (hasks : ∀ r, TextRequest s₀ text r → Asks s₀ (entry i) past r) :
    (SmsService.send text).Obeys (botGuard s₀ entry) i (fun _ past' => past' = past) past none := by
  have hread (response : Response) : (SmsService.readResponse response).Obeys (botGuard s₀ entry) i
      (fun _ past' => past' = past) past none :=
    obeys_readOnly (quiet_readResponse response) (SmsService.within_readResponse response)
  have hdeliver : (SmsService.deliver text).Obeys (botGuard s₀ entry) i (fun _ past' => past' = past)
      past none := by
    unfold SmsService.deliver
    simp only [Prog.bind_eq]
    refine then_require (by decide) (then_require (by decide) ?_ fun _ => rfl) fun _ => rfl
    apply then_looks (looks_optional (by decide)) idleEnv
    rw [Prog.exec_of_run host (run_optional _ _)]
    simp only [Prog.orRaise, Prog.ret_bind]
    refine then_readOnly (quiet_consoleIf _ _ _) (Footprint.consoleIf _ _ _) (fun _ => ?_) fun _ => rfl
    cases hurl : SmsService.url (s₀.secret .twilioSid) with
    | error f => exact rfl
    | ok url =>
      refine then_require (by decide) (then_require (by decide) ?_ fun _ => rfl) fun _ => rfl
      refine then_fetch (hasks _ ⟨url, hurl, ?_⟩) hread fun _ => rfl
      have huser : (if Config.isMissing (s₀ .twilioApiKeySid) then none
          else some (s₀.secret .twilioApiKeySid)).getD (s₀.secret .twilioSid) = twilioUser s₀ := by
        unfold twilioUser
        split_ifs <;> rfl
      rw [huser]
  refine Prog.Obeys.catchWith (R := fun _ past' => past' = past) ?_ (fun _ _ h => h) ?_
  · apply then_looks (looks_isDebugMode (by decide)) idleEnv
    rw [Prog.exec_of_run host (run_isDebugMode _)]
    simp only [Prog.orRaise, Prog.ret_bind, decide_eq_true_eq]
    split_ifs
    · exact then_readOnly (quiet_console _ _) (Footprint.console _ _) (fun _ => rfl) fun _ => rfl
    · exact hdeliver
  · rintro e _ rfl
    exact then_readOnly (quiet_console _ _) (Footprint.console _ _) (fun _ => rfl) fun _ => rfl

theorem obeys_quotesFor {tickers : List JSString}
    (hasks : ∀ ticker ∈ tickers, ∀ r, PriceRequest s₀ ticker r → Asks s₀ (entry i) past r) :
    (PriceService.quotesFor tickers).Obeys (botGuard s₀ entry) i (fun _ past' => past' = past) past
      none := by
  have hquote (ticker : JSString) (hmem : ticker ∈ tickers) :
      (PriceService.quote ticker (s₀.secret .alphaVantageKey)).Obeys (botGuard s₀ entry) i
        (fun _ past' => past' = past) past none := by
    refine Prog.Obeys.catchWith (R := fun _ past' => past' = past) ?_ (fun _ _ h => h) ?_
    · unfold PriceService.fetchQuote
      cases hurl : PriceService.url ticker (s₀.secret .alphaVantageKey) with
      | error f => exact rfl
      | ok url =>
        refine then_fetch (hasks ticker hmem _ ⟨url, hurl, rfl⟩) (fun response => ?_) fun _ => rfl
        split_ifs
        · exact then_readOnly (quiet_console _ _) (Footprint.console _ _) (fun _ => rfl) fun _ => rfl
        · split
          · exact rfl
          · exact obeys_readOnly
              (PriceService.within_readBody (fun level text => ⟨_, rfl, by simp [writes]⟩) ticker _)
              (PriceService.within_readBody (fun _ _ => trivial) ticker _)
    · rintro e _ rfl
      exact then_readOnly (quiet_console _ _) (Footprint.console _ _) (fun _ => rfl) fun _ => rfl
  have hloop (first : Bool) (rest : List JSString) (hrest : ∀ t ∈ rest, t ∈ tickers) :
      (PriceService.quotesLoop (s₀.secret .alphaVantageKey) first rest).Obeys (botGuard s₀ entry) i
        (fun _ past' => past' = past) past none := by
    induction rest generalizing first with
    | nil => exact rfl
    | cons ticker rest ih =>
      have hspace : Quiet (PriceService.spaceCalls first) ∧
          (PriceService.spaceCalls first).Within Footprint.readOnly.allows := by
        unfold PriceService.spaceCalls
        split_ifs
        · exact ⟨quiet_ret _, trivial⟩
        · exact ⟨quiet_sleep _, Footprint.sleep _⟩
      refine then_readOnly hspace.1 hspace.2 (fun _ => ?_) fun _ => rfl
      refine (hquote ticker (hrest ticker List.mem_cons_self)).bind ?_ fun _ _ h => h
      rintro q _ rfl
      split_ifs
      · exact then_readOnly (quiet_console _ _) (Footprint.console _ _) (fun _ => rfl) fun _ => rfl
      · refine (ih false fun t ht => hrest t (List.mem_cons_of_mem _ ht)).bind ?_ fun _ _ h => h
        rintro quotes _ rfl
        exact rfl
  unfold PriceService.quotesFor
  split_ifs
  · exact rfl
  · refine then_readOnly (quiet_consoleIf _ _ _) (Footprint.consoleIf _ _ _) (fun _ => ?_) fun _ => rfl
    exact then_require (by decide) (hloop true _ fun t ht => List.mem_of_mem_take ht) fun _ => rfl

theorem obeys_reply (hi : entry i = .doPost e) (hpast : Admitted past) :
    (reply (intentOf e)).Obeys (botGuard s₀ entry) i (fun _ _ => True) past none := by
  have hend {f : Watchlist.Outcome → Action Reply} (hf : ∀ out, (∃ r, f out = .ret r) ∨ f out = noEntry)
      {p : Action Watchlist.Outcome}
      (hp : p.Obeys (botGuard s₀ entry) i (fun _ _ => True) past none) :
      (p.bind f).Obeys (botGuard s₀ entry) i (fun _ _ => True) past none := by
    refine hp.bind (fun out _ _ => ?_) fun _ _ _ => trivial
    rcases hf out with ⟨r, hr⟩ | hr <;> rw [hr] <;> trivial
  have hpaused (paused : Bool) (ht : (intentOf e).type = if paused then .pause else .resume) :
      (setPausedReply paused).Obeys (botGuard s₀ entry) i (fun _ _ => True) past none :=
    hend (fun out => by cases out <;> simp [pausedReply])
      (Watchlist.obeys_setPaused (hi ▸ ⟨hpast, ht⟩))
  unfold reply
  cases htype : (intentOf e).type with
  | add =>
    unfold addReply
    obtain ⟨valid, hvalid⟩ := isValid_argValue (intentOf e).arg
    rw [hvalid]
    cases valid with
    | false => trivial
    | true =>
      obtain ⟨t, hn, hc⟩ := canonical_of_valid hvalid
      simp only [hn, eval, Prog.bind_eq, Prog.pure_eq, Prog.ret_bind, Bool.not_true,
        Bool.false_eq_true, ↓reduceIte]
      have hnorm : Tickers.normalize (.str t) = .ok t := by
        rw [Tickers.normalize_str, hc.normalizeText_eq]
      refine then_readOnly ?_ (Watchlist.within_has trivial) (fun known => ?_) fun _ => trivial
      · exact Watchlist.quiet_tickers.bind fun _ => (quiet_eval _).bind fun _ => quiet_ret _
      split_ifs
      · trivial
      · refine then_readOnly ?_ (Watchlist.within_isFull trivial) (fun full => ?_) fun _ => trivial
        · exact Watchlist.quiet_tickers.bind fun _ => quiet_ret _
        split_ifs
        · trivial
        · refine (obeys_quotesFor fun ticker hmem r hr => ?_).bind ?_ fun _ _ _ => trivial
          · rw [hi]
            rw [List.mem_singleton.mp hmem] at hr
            exact .inl ⟨t, hn, hc, hr, hpast.recorded, htype⟩
          · rintro quotes _ rfl
            unfold addQuoted
            split
            · trivial
            · split
              · trivial
              · trivial
              · exact hend (fun out => by cases out <;> simp [addedReply])
                  (Watchlist.obeys_add hnorm (hi ▸ ⟨hpast, htype, hn⟩))
  | remove =>
    unfold removeReply
    obtain ⟨t, hn⟩ := normalize_argValue (intentOf e).arg
    obtain ⟨valid, hvalid⟩ := isValid_argValue (intentOf e).arg
    rw [hvalid]
    simp only [eval, Prog.bind_eq, Prog.pure_eq, Prog.ret_bind]
    split_ifs
    · trivial
    · exact hend (fun out => by cases out <;> simp [removedReply])
        (Watchlist.obeys_remove hn (hi ▸ ⟨hpast, htype, hn⟩))
  | pause => exact hpaused true htype
  | resume => exact hpaused false htype
  | list =>
    exact then_readOnly Watchlist.quiet_tickers (Watchlist.within_tickers trivial) (fun _ =>
      then_readOnly Watchlist.quiet_isPaused (Watchlist.within_isPaused trivial) (fun _ => trivial)
        fun _ => trivial) fun _ => trivial
  | log =>
    have hrecent : Quiet (SecurityVault.recentAudit 8) :=
      (SecurityVault.quiet_readJson _).bind fun _ => quiet_ret _
    exact then_readOnly hrecent (SecurityVault.within_recentAudit trivial) (fun _ => trivial)
      fun _ => trivial
  | help => trivial
  | unlock => trivial

theorem obeys_answer (hi : entry i = .doPost e) (hpast : Admitted past) :
    (answer e).Obeys (botGuard s₀ entry) i (fun _ _ => True) past none := by
  rw [answer_eq]
  refine then_readOnly (quiet_validate _) (Footprint.validate fun _ _ => trivial) (fun _ => ?_)
    fun _ => trivial
  refine (obeys_reply hi hpast).extends.bind ?_ fun _ _ _ => trivial
  rintro r past' ⟨-, hmore⟩
  refine then_readOnly (quiet_eval _) (Footprint.eval _) (fun text => ?_) fun _ => trivial
  refine (obeys_send fun r hr => ?_).bind (fun _ _ _ => trivial) fun _ _ _ => trivial
  rw [hi]
  exact .inr ⟨text, hr, .inl (hpast.recorded.mono hmore)⟩

theorem obeys_doPost (hi : entry i = .doPost e) :
    (doPost e).Obeys (botGuard s₀ entry) i (fun x _ => x = .ok emptyOk) [] none := by
  have hhandle : (handle e).Obeys (botGuard s₀ entry) i (fun x _ => ∀ a, x = .ok a → a = emptyOk) []
      none := by
    unfold handle
    simp only [Prog.bind_eq, Prog.pure_eq]
    refine (SecurityGate.obeys_authorize hi).bind ?_ fun _ _ _ _ h => by cases h
    rintro auth past' hauth
    obtain ⟨hallowed, hsealed⟩ := hauth auth rfl
    split_ifs with hrefused hjust
    · refine (obeys_send fun r hr => ?_).bind (fun _ _ _ _ h => (Except.ok.inj h).symm)
        fun _ _ _ _ h => by cases h
      rw [hi]
      exact .inr ⟨_, hr, .inr ⟨rfl, hsealed hjust⟩⟩
    · exact fun _ h => (Except.ok.inj h).symm
    · refine (obeys_answer hi (hallowed (by simpa using hrefused))).bind
        (fun _ _ _ _ h => (Except.ok.inj h).symm) fun _ _ _ _ h => by cases h
  refine Prog.Obeys.catchWith hhandle (fun a _ h => congrArg Except.ok (h a rfl)) fun err past' _ => ?_
  exact ⟨trivial, fun d r d' _ heff => ⟨heff, rfl⟩⟩

end CommandHandler

/-! ## The daily run -/

namespace Scheduler

theorem obeys_claim (hi : entry i = .runDailyAlert) :
    Signer.claim.Obeys (botGuard s₀ entry) i (fun _ _ => True) [] none := by
  unfold Signer.claim
  simp only [Prog.bind_eq, Prog.pure_eq]
  apply then_looks (looks_isDebugMode (by decide)) idleEnv
  rw [Prog.exec_of_run host (run_isDebugMode _)]
  simp only [Prog.orRaise, Prog.ret_bind, decide_eq_true_eq]
  split_ifs
  · exact then_readOnly SecurityVault.quiet_currentSequence
      (SecurityVault.within_currentSequence trivial) (fun _ => trivial) fun _ => trivial
  · refine obeys_withScriptLock (fun s hs => ?_) trivial
    apply inside_then_looks (looks_currentSequence trivial) idleEnv
    rw [SecurityVault.exec_currentSequence]
    obtain ⟨b, hb⟩ := hs.2
    have hnext : Number.add (SecurityVault.countOf (s .secMsgCount)) (.finite 1) =
        .finite (countUp b.counter) := by
      rw [hb.countOf, add_one_countUp b.counter_le]
    exact inside_then_write (by decide) hs (hi ▸ ⟨rfl, countUp b.counter, rfl⟩) (Bot.does_claim hnext)
      (fun _ => trivial) fun _ => trivial

theorem obeys_sign (hi : entry i = .runDailyAlert) (message : JSString) :
    (Signer.sign message).Obeys (botGuard s₀ entry) i (fun _ _ => True) [] none := by
  refine (obeys_claim hi).bind (fun number past _ => ?_) fun _ _ _ => trivial
  cases number with
  | none => exact ⟨trivial, fun d r d' _ heff => ⟨heff, trivial⟩⟩
  | some n =>
    unfold Signer.tag
    simp only [Prog.bind_eq, Prog.pure_eq, Prog.bind_assoc, Prog.ret_bind]
    exact then_require (by decide) trivial fun _ => trivial

theorem obeys_runDailyAlert (hi : entry i = .runDailyAlert) :
    runDailyAlert.Obeys (botGuard s₀ entry) i (fun _ _ => True) [] none := by
  have hrun : dailyRun.Obeys (botGuard s₀ entry) i (fun _ _ => True) [] none := by
    unfold dailyRun
    simp only [Prog.bind_eq]
    refine then_readOnly (quiet_validate _) (Footprint.validate fun _ _ => trivial) (fun _ => ?_)
      fun _ => trivial
    refine then_readOnly Watchlist.quiet_isPaused (Watchlist.within_isPaused trivial)
      (fun paused => ?_) fun _ => trivial
    split_ifs
    · exact ⟨trivial, fun d r d' _ heff => ⟨heff, trivial⟩⟩
    · refine Watchlist.then_tickers fun tickers hcanonical => ?_
      refine (CommandHandler.obeys_quotesFor fun ticker hmem r hr => ?_).bind ?_ fun _ _ _ => trivial
      · rw [hi]
        exact .inl ⟨ticker, hcanonical ticker hmem, hr⟩
      rintro quotes _ rfl
      refine then_readOnly (quiet_consoleIf _ _ _) (Footprint.consoleIf _ _ _) (fun _ => ?_)
        fun _ => trivial
      refine then_readOnly (quiet_eval _) (Footprint.eval _) (fun message => ?_) fun _ => trivial
      refine (obeys_sign hi message).bind (fun signed _ _ => ?_) fun _ _ _ => trivial
      refine (CommandHandler.obeys_send fun r hr => ?_).bind (fun _ _ _ => trivial)
        fun _ _ _ => trivial
      rw [hi]
      exact .inr ⟨signed, hr⟩
  refine Prog.Obeys.catchWith hrun (fun _ _ _ => trivial) fun err _ _ => ?_
  exact ⟨trivial, fun d r d' _ heff => ⟨heff, trivial⟩⟩

end Scheduler

/-- What an execution promises: a request is always answered with the empty text. -/
def Promises (entry : Entry) (x : Except JSError (Option JSString)) : Prop :=
  match entry with
  | .doPost _ => x = .ok (some CommandHandler.emptyOk)
  | .runDailyAlert => True

theorem obeys_program (s₀ : Store) (entry : ι → Entry) (i : ι) :
    (entry i).program.Obeys (botGuard s₀ entry) i (fun x _ => Promises (entry i) x) [] none := by
  cases hi : entry i with
  | doPost e =>
    refine (CommandHandler.obeys_doPost hi).bind ?_ fun err _ h => by cases h
    rintro a past h
    exact congrArg (fun text => Except.ok (some text)) (Except.ok.inj h)
  | runDailyAlert =>
    exact (Scheduler.obeys_runDailyAlert hi).bind (fun _ _ _ => trivial) fun _ _ _ => trivial

end Spazito
