import Spazito.DeskCommands

set_option autoImplicit false

/-!
# The bot holds its conversation

Occasion after occasion, with nobody else at the lock, the program sends what the desk says and keeps
what the desk keeps.
-/
namespace Spazito
open Ecma Script

section Conversation

variable [Platform]

namespace Occasion

def env : Occasion → Env
  | message x => x.env
  | evening env => env

def run (s : Store) : Occasion → Store
  | message x => ((CommandHandler.doPost x.event).run host ⟨s, x.env⟩).state.store
  | evening env => (Scheduler.runDailyAlert.run host ⟨s, env⟩).state.store

def Says (s : Store) : Occasion → Option JSString → Prop
  | message x, some text => ∃ t, Prog.CallsOnce host (CommandHandler.doPostWith x.event) ⟨s, x.env⟩
      text t CommandHandler.emptyOk
  | message x, none => ∃ r, Prog.CallsNever host (CommandHandler.doPostWith x.event) ⟨s, x.env⟩ r
  | evening env, some text => ∃ t, Prog.CallsOnce host Scheduler.runDailyAlertWith ⟨s, env⟩ text t ()
  | evening env, none => ∃ r, Prog.CallsNever host Scheduler.runDailyAlertWith ⟨s, env⟩ r

end Occasion

/-- What the program says, occasion by occasion, and the properties at the end. -/
inductive Spoken : Store → List Occasion → List (Option JSString) → Store → Prop
  | done (s : Store) : Spoken s [] [] s
  | next {s s' : Store} {o : Occasion} {said : Option JSString} {rest : List Occasion}
      {later : List (Option JSString)} (hsaid : o.Says s said)
      (hlater : Spoken (o.run s) rest later s') :
      Spoken s (o :: rest) (said :: later) s'

namespace Desk

variable {v : World}

/-! ## What the desk stands for -/

/-- The properties hold what the desk holds, and the configuration is that of the installation. -/
structure StandsFor (d : Desk) (s₀ s : Store) : Prop where
  frame : ∀ k ∉ ownKeys, s k = s₀ k
  vault : Represents s d.vault
  bounded : d.vault.Bounded
  tracked : Watchlist.Represents d.tracked (Watchlist.stored s)
  trail : SecurityVault.Trails s d.trail
  counter : SecurityVault.countOf (s .secMsgCount) = .finite d.counter
  counter_le : d.counter ≤ 2 ^ 53

variable {s₀ s : Store} {d : Desk}

omit [Platform] in
theorem StandsFor.secret (h : d.StandsFor s₀ s) {k : Key} (hk : k ∉ ownKeys) :
    s.secret k = s₀.secret k := by
  rw [Store.secret, h.frame k hk]
  rfl

omit [Platform] in
theorem standsFor_initial (h₀ : Installed s₀) : initial.StandsFor s₀ s₀ where
  frame := fun _ _ => rfl
  vault := SecurityGate.represents_unset fun k hk => h₀.unset k (by revert k; decide)
  bounded := ⟨by decide, fun _ => by decide⟩
  tracked := Watchlist.represents_initial (h₀.unset _ (by decide)) (h₀.unset _ (by decide))
  trail := by
    have hnone : s₀ .secAudit = none := h₀.unset _ (by decide)
    simp [SecurityVault.Trails, Store.array, hnone, initial, SecurityVault.lastOf]
  counter := by
    rw [h₀.unset _ (by decide)]
    decide
  counter_le := Nat.zero_le _

omit [Platform] in
theorem StandsFor.showingOf (h : d.StandsFor s₀ s) (params : Parameters) :
    SecurityGate.showingOf params s = SecurityGate.showingOf params s₀ := by
  unfold SecurityGate.showingOf
  rw [h.secret (by decide), h.secret (by decide), h.secret (by decide)]

/-! ## The gate -/

theorem fetch_authorize (e : Option WebhookEvent) (w : World) :
    ((SecurityGate.authorize e).run host w).state.env.fetch = w.env.fetch := by
  have hnone : fetchCount ((SecurityGate.authorize e).run host w).performed = 0 := by
    refine List.countP_eq_zero.mpr fun c hmem hfetch => ?_
    have hallowed := (SecurityGate.within_authorize e).performed w c hmem
    rcases c with (_ | _ | _ | _ | _ | _) | _ | _
    case op.fetch => exact hallowed
    all_goals cases hfetch
  funext i
  have hindex := run_fetch_index (SecurityGate.authorize e) w i
  rwa [hnone] at hindex

theorem StandsFor.gated (h : d.StandsFor s₀ s) (hc : Configured s₀) (x : Visit) (hcalm : x.env.Calm) :
    ∃ group v, SecurityGate.Appended (s₀.secret .verifierKey) x (d.events s₀ x) group ∧
      (SecurityGate.authorize x.event).exec host ⟨s, x.env⟩ = (.ok (d.gate s₀ x).1, v) ∧
      (d.entered s₀ x group).StandsFor s₀ v.store ∧ v.env.Calm ∧ v.env.fetch = x.env.fetch := by
  have hconf : Configured s := hc.of_frame (by decide) h.frame
  have hlock : x.env.lock = fun _ => true := funext hcalm.lock
  have hshow := h.showingOf (SecurityGate.paramsOf x.event)
  have hf := SecurityGate.authorize_follows (w := ⟨s, x.env⟩) x.event hconf h.vault hcalm.writes
    (h.bounded.1.trans_lt (by decide))
  have hreaches : SecurityGate.Reaches s s d.vault := ⟨h.vault, fun _ _ => rfl, h.bounded⟩
  obtain ⟨group, hgroup, htrail⟩ := hreaches.trails hconf hcalm.writes h.trail
  rw [SecurityGate.events_visitRecord h.vault hf, hshow, hlock, h.secret (by decide)] at hgroup
  have hdecision := hf.decision
  have hvault := hf.represents
  dsimp only at hdecision hvault
  rw [hshow, hlock] at hdecision hvault
  have hown : ∀ k ∈ SecurityGate.securityKeys, k ∈ ownKeys := by decide
  have hstored : Watchlist.stored ((SecurityGate.authorize x.event).exec host ⟨s, x.env⟩).2.store =
      Watchlist.stored s := Prod.ext (hf.frame _ (by decide)) (hf.frame _ (by decide))
  refine ⟨group, _, hgroup, Prod.ext hdecision rfl, ?_, calm_run _ hcalm, ?_⟩
  · exact
    { frame := fun k hk => (hf.frame k (mt (hown k) hk)).trans (h.frame k hk)
      vault := hvault
      bounded := h.bounded.step _ _ _
      tracked := by
        rw [hstored]
        exact h.tracked
      trail := htrail
      counter := by
        rw [hf.frame _ (by decide)]
        exact h.counter
      counter_le := h.counter_le }
  · exact fetch_authorize x.event ⟨s, x.env⟩

/-! ## Messages -/

omit [Platform] in
theorem StandsFor.retracked {t : Store} {a : Watchlist.Tracked} (h : d.StandsFor s₀ s)
    (hsame : ∀ k ∉ [Key.watchlist, .paused], t k = s k)
    (ha : Watchlist.Represents a (Watchlist.stored t)) : { d with tracked := a }.StandsFor s₀ t where
  frame := fun k hk => by
    have hown : ∀ k ∈ [Key.watchlist, .paused], k ∈ ownKeys := by decide
    rw [hsame k (mt (hown k) hk), h.frame k hk]
  vault := by
    have hother : ∀ k ∈ [Key.secFailures, .secSealed, .secSeenSids], k ∉ [Key.watchlist, .paused] := by
      decide
    exact SecurityGate.represents_congr h.vault fun k hk => hsame k (hother k hk)
  bounded := h.bounded
  tracked := ha
  trail := SecurityVault.trails_congr h.trail (hsame _ (by decide))
  counter := by
    rw [hsame _ (by decide)]
    exact h.counter
  counter_le := h.counter_le

theorem StandsFor.message (h : d.StandsFor s₀ s) (hc : Configured s₀) (x : Visit)
    (hcalm : x.env.Calm) : ∃ said d', (Occasion.message x).Says s said ∧ d.Hears s₀ x said d' ∧
      d'.StandsFor s₀ ((Occasion.message x).run s) := by
  obtain ⟨group, v, hgroup, hgate, hstands, hcalm', hfetch⟩ := h.gated hc x hcalm
  have hstate : ((SecurityGate.authorize x.event).run host ⟨s, x.env⟩).state = v :=
    congrArg Prod.snd hgate
  have houtcome : ((SecurityGate.authorize x.event).run host ⟨s, x.env⟩).outcome =
      .ok (d.gate s₀ x).1 := congrArg Prod.fst hgate
  cases hallowed : (d.gate s₀ x).1.allowed with
  | true =>
    have hconf : Configured v.store := hc.of_frame (by decide) hstands.frame
    have hprices : Quotes (pricesIn s₀ x.env) v :=
      quotes_pricesIn (hstands.secret (by decide)) (hconf _ (by decide)) hfetch
    obtain ⟨t, hexec, hrep⟩ := exec_answer hstands.tracked hstands.trail hcalm' hprices
      (CommandParser.parse (CommandHandler.bodyOf x.event))
    obtain ⟨text, htext⟩ := answer_text (d.entered s₀ x group) (pricesIn s₀ x.env)
      (CommandParser.parse (CommandHandler.bodyOf x.event))
    have hcall := CommandHandler.callsOnce_reply (w := ⟨s, x.env⟩) ⟨_, houtcome, hallowed⟩
      (by rwa [hstate]) (by rwa [hstate]) htext
    refine ⟨some text, _, ⟨t, hcall⟩, .answered hgroup hallowed htext, ?_⟩
    rw [Occasion.run, CommandHandler.store_of_callsOnce hcall]
    refine hstands.retracked (fun k hk => ?_) hrep
    have hkept := Footprint.unchanged (CommandHandler.within_reply_any
      (CommandParser.parse (CommandHandler.bodyOf x.event))) hk v
    change (Prog.exec host _ v).2.store k = _ at hkept
    rwa [hexec] at hkept
  | false =>
    have hsaid := CommandHandler.calls_of_refused hallowed hgate
    refine ⟨_, _, ?_, .refused hgroup hallowed, ?_⟩
    · split_ifs at hsaid ⊢
      · exact ⟨v, hsaid⟩
      · exact hsaid
    · have hrefused : ¬ Allowed x.event ⟨s, x.env⟩ := by
        rintro ⟨decision, hdecision, htrue⟩
        rw [houtcome] at hdecision
        cases hdecision
        rw [hallowed] at htrue
        cases htrue
      have hstore : (Occasion.message x).run s = v.store := by
        funext k
        by_cases hk : k ∈ SecurityGate.securityKeys
        · rw [Occasion.run, CommandHandler.doPost_security _ _ k hk, hstate]
        · rw [Occasion.run, (CommandHandler.doPost_refused_frame hrefused).1 k hk, ← hstate]
          exact (Footprint.unchanged (SecurityGate.within_authorize x.event) hk ⟨s, x.env⟩).symm
      rw [hstore]
      exact hstands

/-! ## Evenings -/

omit [Platform] in
theorem StandsFor.counted {t : Store} {n : ℕ} (h : d.StandsFor s₀ s)
    (hsame : ∀ k ≠ .secMsgCount, t k = s k)
    (hcount : SecurityVault.countOf (t .secMsgCount) = .finite n) (hn : n ≤ 2 ^ 53) :
    { d with counter := n }.StandsFor s₀ t where
  frame := fun k hk => by
    rw [hsame k fun he => hk (by rw [he]; decide), h.frame k hk]
  vault := SecurityGate.represents_congr h.vault fun k hk =>
    hsame k (by rintro rfl; revert hk; decide)
  bounded := h.bounded
  tracked := by
    have hstored : Watchlist.stored t = Watchlist.stored s :=
      Prod.ext (hsame _ (by decide)) (hsame _ (by decide))
    rw [hstored]
    exact h.tracked
  trail := SecurityVault.trails_congr h.trail (hsame _ (by decide))
  counter := hcount
  counter_le := hn

omit [Platform] in
theorem exec_claim_next {n : ℕ} (hcount : SecurityVault.countOf (v.store .secMsgCount) = .finite n)
    (hn : n ≤ 2 ^ 53) (hl : v.env.lock 0 = true) (hw : v.env.write 0 = none) :
    ∃ t, Signer.claim.exec host v = (.ok (some (.finite (countUp n))), t) ∧
      SecurityVault.countOf (t.store .secMsgCount) =
        .finite (if v.store.secret .debugMode = js "true" then n else countUp n : ℕ) := by
  have hdebug : Config.isDebugMode.exec host v =
      (.ok (decide (v.store.secret .debugMode = js "true")), v) :=
    Prog.exec_of_run host (run_isDebugMode v)
  unfold Signer.claim
  simp only [Prog.bind_eq]
  rw [Prog.exec_bind_ok host hdebug]
  by_cases hd : v.store.secret .debugMode = js "true"
  · rw [if_pos hd, decide_eq_true hd, if_pos rfl]
    simp only [Prog.exec_bind, SecurityVault.exec_currentSequence, Prog.next_ok, Prog.pure_eq,
      Prog.exec_ret, hcount, add_one_countUp hn]
    exact ⟨v, rfl, hcount⟩
  · rw [if_neg hd, decide_eq_false hd, if_neg Bool.false_ne_true]
    simp only [SecurityVault.nextSequence, exec_withScriptLock, hl, ↓reduceIte, Prog.bind_eq,
      Prog.exec_bind, SecurityVault.exec_currentSequence, Prog.next_ok, Prog.pure_eq, Prog.exec_ret,
      hcount, add_one_countUp hn, exec_setProperty ⟨v.store, v.env.afterLock⟩ _ _ hw]
    refine ⟨_, rfl, ?_⟩
    change SecurityVault.countOf (v.store.set .secMsgCount _ .secMsgCount) = _
    rw [Store.set_self, Number.toText_natCast _ (countUp_le n)]
    exact SecurityVault.countOf_decimal (countUp_le n)

theorem run_evening_of_callsOnce {env : Env} {text : JSString} {t : World}
    (h : Prog.CallsOnce host Scheduler.runDailyAlertWith ⟨s, env⟩ text t ()) :
    (Occasion.evening env).run s = t.store := by
  obtain ⟨before, hrun⟩ := h
  rw [Occasion.run, Scheduler.runDailyAlert_eq, hrun SmsService.send SmsService.send_neverThrows]
  exact funext fun k => Footprint.unchanged (CommandHandler.within_idle_send text) id t

theorem StandsFor.evening (h : d.StandsFor s₀ s) (hc : Configured s₀) (env : Env) (hcalm : env.Calm) :
    (Occasion.evening env).Says s (d.evening s₀ env).1 ∧
      (d.evening s₀ env).2.StandsFor s₀ ((Occasion.evening env).run s) := by
  have hconf : Configured s := hc.of_frame (by decide) h.frame
  have hsub : ∀ k ∈ Config.alertKeys, k ∈ Config.webhookKeys := by decide
  have hkeys : ∀ k ∈ Config.alertKeys, Config.isMissing (s k) = false :=
    fun k hk => hconf k (hsub k hk)
  have hflag : Watchlist.isPaused.exec host ⟨s, env⟩ = (.ok d.tracked.paused, ⟨s, env⟩) :=
    Prog.exec_of_run host (Watchlist.run_isPaused h.tracked)
  unfold Desk.evening
  cases hp : d.tracked.paused with
  | true =>
    rw [hp] at hflag
    obtain ⟨r, hnever, hstore⟩ : ∃ r, Prog.CallsNever host Scheduler.runDailyAlertWith ⟨s, env⟩ r ∧
        r.state.store = s := by
      let skipped : Action Unit :=
        console .log (js "Alerts are paused — daily run skipped, nothing sent.")
      exact ⟨_, Prog.CallsNever.catchWith (Prog.CallsNever.after
        (Scheduler.exec_validateForAlert hkeys) (Prog.CallsNever.after
          (r := skipped.run host ⟨s, env⟩) hflag fun _ => rfl)) _, rfl⟩
    refine ⟨⟨r, hnever⟩, ?_⟩
    have hrun := hnever SmsService.send
    rw [Occasion.run, Scheduler.runDailyAlert_eq, hrun, hstore]
    exact h
  | false =>
    rw [hp] at hflag
    have ht := Watchlist.tickersOf_represented h.tracked
    obtain ⟨hcanonical, hfew⟩ := Watchlist.tickersOf_tracked ht
    obtain ⟨env', hprices, henv⟩ := PriceService.exec_quotesFor ⟨s, env⟩ d.tracked.tickers hfew
      (hkeys _ (by decide))
    have hquotes := Scheduler.canonical_quotes (s.secret .alphaVantageKey) env hcanonical
    obtain ⟨t, hclaim, hcount⟩ := exec_claim_next (v := ⟨s, env'⟩) h.counter h.counter_le
      (by rw [henv.lock]; exact hcalm.lock 0) (by rw [henv.write]; exact hcalm.writes 0)
    have hapi : s.secret .alphaVantageKey = s₀.secret .alphaVantageKey := h.secret (by decide)
    have hkey : s.secret .verifierKey = s₀.secret .verifierKey := h.secret (by decide)
    have hdebug : s.secret .debugMode = s₀.secret .debugMode := h.secret (by decide)
    dsimp only at hprices hcount
    rw [hapi] at hprices hquotes
    rw [hdebug] at hcount
    set quotes := PriceService.quotesFrom (s₀.secret .alphaVantageKey) d.tracked.tickers env
    have hsign := Signer.exec_sign (Scheduler.payload quotes) (countUp_le d.counter)
      (hkeys _ (by decide)) hclaim
    dsimp only at hsign
    rw [hkey] at hsign
    have hcall : Prog.CallsOnce host Scheduler.runDailyAlertWith ⟨s, env⟩ (Signer.signedText
        (s₀.secret .verifierKey) (countUp d.counter) (Scheduler.payload quotes)) t () := by
      refine Prog.CallsOnce.catchWith (Prog.CallsOnce.after (Scheduler.exec_validateForAlert hkeys)
        (Prog.CallsOnce.after hflag ?_)) _
      refine Prog.CallsOnce.after (Scheduler.exec_tickers_ok ht) (Prog.CallsOnce.after hprices ?_)
      refine Prog.CallsOnce.after (exec_consoleIf _ _ _ _) (Prog.CallsOnce.after ?_
        (Prog.CallsOnce.after hsign (Prog.CallsOnce.call _ _ _)))
      rw [Scheduler.summaryLine_quotes hquotes]
      rfl
    have hstore := run_evening_of_callsOnce hcall
    refine ⟨⟨t, hcall⟩, h.counted (fun k hk => ?_) ?_ ?_⟩
    · exact Footprint.unchanged Scheduler.within_runDailyAlert hk ⟨s, env⟩
    · rw [hstore]
      exact hcount
    · split_ifs
      · exact h.counter_le
      · exact countUp_le d.counter

/-! ## The conversation -/

theorem StandsFor.talks (h : d.StandsFor s₀ s) (hc : Configured s₀) (os : List Occasion)
    (hcalm : ∀ o ∈ os, o.env.Calm) : ∃ sayings d' s', Spoken s os sayings s' ∧
      Talks s₀ d os sayings d' ∧ d'.StandsFor s₀ s' := by
  induction os generalizing d s with
  | nil => exact ⟨[], d, s, .done s, .done d, h⟩
  | cons o rest ih =>
    obtain ⟨hfirst, hrest⟩ := List.forall_mem_cons.mp hcalm
    cases o with
    | message x =>
      obtain ⟨said, d₁, hsaid, hears, hstands⟩ := h.message hc x hfirst
      obtain ⟨later, d', s', hspoken, htalks, hend⟩ := ih hstands hrest
      exact ⟨said :: later, d', s', .next hsaid hspoken, .message hears htalks, hend⟩
    | evening env =>
      obtain ⟨hsaid, hstands⟩ := h.evening hc env hfirst
      obtain ⟨later, d', s', hspoken, htalks, hend⟩ := ih hstands hrest
      exact ⟨(d.evening s₀ env).1 :: later, d', s', .next hsaid hspoken, .evening htalks, hend⟩

end Desk

/-- **The bot holds its conversation.** From the installation on, with nobody else at the lock and no
write refused, the program says on every occasion what the desk says, and keeps what the desk keeps. -/
theorem conversation {s₀ : Store} (h₀ : Installed s₀) (os : List Occasion)
    (hcalm : ∀ o ∈ os, o.env.Calm) : ∃ sayings d s, Spoken s₀ os sayings s ∧
      Desk.Talks s₀ .initial os sayings d ∧ d.StandsFor s₀ s :=
  (Desk.standsFor_initial h₀).talks h₀.configured os hcalm

end Conversation

section
open AppsScript

/-- The first evening has no prices, the network being down; after "pause" the second is silent. -/
theorem conversation_pause : ∃ s, Spoken sampleStore
    [.evening sampleEnv, .message ⟨pauseRequest, sampleEnv⟩, .evening sampleEnv]
    [some (Signer.signedText (js "key") 1 (js "S&P n/a | Gold n/a | Silver n/a")), some Replies.paused,
      none] s := by
  have hcalm : sampleEnv.Calm := ⟨fun _ => rfl, fun _ => rfl⟩
  obtain ⟨sayings, d, s, hspoken, htalks, -⟩ := conversation installed_sampleStore
    [.evening sampleEnv, .message ⟨pauseRequest, sampleEnv⟩, .evening sampleEnv] (by
      simpa [Occasion.env] using hcalm)
  have hparse : CommandParser.parse (CommandHandler.bodyOf pauseRequest) = ⟨.pause, none⟩ := by
    decide +kernel
  have hreply (d : Desk) : d.reply sampleStore ⟨pauseRequest, sampleEnv⟩ =
      (.paused, { d.tracked with paused := true }) := by
    rw [Desk.reply, hparse]
    rfl
  have hfirst : (Desk.initial.evening sampleStore sampleEnv).1 =
      some (Signer.signedText (js "key") 1 (js "S&P n/a | Gold n/a | Silver n/a")) := by
    have hkey : sampleStore.secret .verifierKey = js "key" := by decide
    have hone : countUp 0 = 1 := by decide
    have hline : Scheduler.payload (PriceService.quotesFrom (sampleStore.secret .alphaVantageKey)
        Desk.initial.tracked.tickers sampleEnv) = js "S&P n/a | Gold n/a | Silver n/a" := by
      decide +kernel
    rw [← hkey, ← hone, ← hline]
    rfl
  have hsilent (d : Desk) (h : d.tracked.paused = true) :
      (d.evening sampleStore sampleEnv).1 = none := by
    rw [Desk.evening, if_pos h]
  cases htalks with
  | evening htalks =>
    cases htalks with
    | message hears htalks =>
      cases htalks with
      | evening htalks =>
        cases htalks
        cases hears with
        | answered _ _ worded =>
          rw [hreply] at worded hspoken
          cases worded
          rw [hfirst, hsilent _ rfl] at hspoken
          exact ⟨s, hspoken⟩
        | refused _ hrefused =>
          have hallowed : ((Desk.initial.evening sampleStore sampleEnv).2.gate sampleStore
              ⟨pauseRequest, sampleEnv⟩).1.allowed = true := by decide +kernel
          rw [hallowed] at hrefused
          cases hrefused

end
end Spazito
