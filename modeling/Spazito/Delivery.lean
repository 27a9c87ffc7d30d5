import Spazito.DailyText
import Spazito.ShellFootprints

set_option autoImplicit false

/-!
# Whether the daily text has gone out

What Twilio answered in a run, and which runs end as if all were well without it.
-/
namespace Spazito
open Ecma Script

/-! ## The answers along a trace -/

def isFetch : Cmd GAS → Bool
  | .op (.fetch _) => true
  | _ => false

def fetchCount (t : Trace) : ℕ := t.countP isFetch

theorem fetchCount_cons (c : Cmd GAS) (t : Trace) :
    fetchCount (c :: t) = fetchCount t + if isFetch c then 1 else 0 := List.countP_cons

theorem run_fetch_index {α : Type} (p : Action α) (w : World) (i : ℕ) :
    (p.run host w).state.env.fetch i = w.env.fetch (i + fetchCount (p.run host w).performed) := by
  have hstep (c : Cmd GAS) (v : World) (j : ℕ) :
      (host c v).2.env.fetch j = v.env.fetch (j + if isFetch c then 1 else 0) := by
    cases c with
    | waitLock n => rfl
    | releaseLock => rfl
    | op o =>
      cases o with
      | setProperty k x => cases h : v.env.write 0 <;> simp [host, h, isFetch]
      | _ => rfl
  induction p generalizing w i with
  | ret a => rfl
  | raise e => rfl
  | perform c k ih =>
    rw [Prog.run_perform]
    dsimp only
    rw [ih, hstep, fetchCount_cons, add_assoc]

namespace SmsService

def Success (answer : Except JSError Response) : Prop :=
  ∃ response, answer = .ok response ∧ 200 ≤ response.code ∧ response.code < 300

def Accepted (env : Env) : Trace → Prop
  | [] => False
  | .op (.fetch r) :: t =>
    ((∃ text, Carries text r) ∧ Success (env.fetch 0 r)) ∨ Accepted env.afterFetch t
  | _ :: t => Accepted env t

theorem accepted_congr {env env' : Env} (h : ∀ i, env.fetch i = env'.fetch i) (t : Trace) :
    Accepted env t ↔ Accepted env' t := by
  induction t generalizing env env' with
  | nil => rfl
  | cons c t ih =>
    have hshift : ∀ i, env.afterFetch.fetch i = env'.afterFetch.fetch i := fun i => h (i + 1)
    have hnext := ih hshift
    cases c with
    | op o =>
      cases o with
      | fetch r => rw [Accepted, Accepted, h 0, hnext]
      | _ => exact ih h
    | _ => exact ih h

theorem accepted_append {env env' : Env} {s : Trace}
    (h : ∀ i, env'.fetch i = env.fetch (i + fetchCount s)) (t : Trace) :
    Accepted env (s ++ t) ↔ Accepted env s ∨ Accepted env' t := by
  induction s generalizing env with
  | nil => simpa [Accepted] using accepted_congr (fun i => (h i).symm) t
  | cons c s ih =>
    cases c with
    | op o =>
      cases o with
      | fetch r =>
        have hshift (i : ℕ) : env'.fetch i = env.afterFetch.fetch (i + fetchCount s) := by
          rw [h i, Env.afterFetch_fetch, fetchCount_cons, add_assoc]
          rfl
        rw [List.cons_append, Accepted, Accepted, ih hshift, or_assoc]
      | _ => exact ih h
    | _ => exact ih h

theorem not_accepted {env : Env} {t : Trace} (h : ∀ r, .op (.fetch r) ∈ t → ∀ text, ¬ Carries text r) :
    ¬ Accepted env t := by
  induction t generalizing env with
  | nil => exact id
  | cons c t ih =>
    have hnext : ∀ env, ¬ Accepted env t := fun env => ih fun r hr => h r (by simp [hr])
    cases c with
    | op o =>
      cases o with
      | fetch r =>
        rintro (⟨⟨text, htext⟩, -⟩ | hrest)
        · exact h r (by simp) text htext
        · exact hnext _ hrest
      | _ => exact hnext env
    | _ => exact hnext env

theorem not_accepted_within {F : Footprint} {α : Type} {p : Action α} {w : World} {env : Env}
    (hp : p.Within F.allows) (hF : ∀ r, F.fetches r → ∀ text, ¬ Carries text r) :
    ¬ Accepted env (p.run host w).performed :=
  not_accepted fun r hr => hF r (hp.performed w _ hr)

theorem accepted_bind {F : Footprint} {α β : Type} {p : Action α} {f : α → Action β} {w v : World}
    {a : α} (hp : p.Within F.allows) (hF : ∀ r, F.fetches r → ∀ text, ¬ Carries text r)
    (hexec : p.exec host w = (.ok a, v)) :
    Accepted w.env ((p.bind f).run host w).performed ↔
      Accepted v.env ((f a).run host v).performed := by
  have hindex := run_fetch_index p w
  rw [Prog.run_of_exec hexec] at hindex
  rw [Prog.run_bind, Prog.run_of_exec hexec, Result.andThen_ok, accepted_append hindex]
  exact or_iff_right (not_accepted_within hp hF)

theorem accepted_fetch {F : Footprint} {β : Type} {r : Request} {f : Response → Action β} {w : World}
    (text : JSString) (hr : Carries text r) (hf : ∀ a, (f a).Within F.allows)
    (hF : ∀ r, F.fetches r → ∀ text, ¬ Carries text r) :
    Accepted w.env (((fetch r).bind f).run host w).performed ↔ Success (w.env.fetch 0 r) := by
  have hone (t : Trace) (ht : ¬ Accepted w.env.afterFetch t) :
      Accepted w.env (.op (.fetch r) :: t) ↔ Success (w.env.fetch 0 r) := by
    rw [Accepted, or_iff_left ht]
    exact and_iff_right ⟨text, hr⟩
  rw [Prog.run_bind, run_fetch, Result.andThen]
  split
  · exact hone _ (not_accepted_within (hf _) hF)
  · exact hone [] id

variable [Platform]

def messageRequest (s : Store) (u message : JSString) : Request :=
  let username := if Config.isMissing (s .twilioApiKeySid) then s.secret .twilioSid
    else s.secret .twilioApiKeySid
  ⟨.post, u, [(js "To", s.secret .recipientNumber), (js "From", s.secret .twilioFromNumber),
      (js "Body", message)],
    [(js "Authorization", js "Basic " ++
      Platform.base64Encode (username ++ js ":" ++ s.secret .twilioAuthToken))]⟩

theorem accepted_send {w : World} {message : JSString}
    (hkeys : ∀ k ∈ Config.alertKeys, Config.isMissing (w.store k) = false)
    (hdebug : w.store.secret .debugMode ≠ js "true") :
    Accepted w.env ((send message).run host w).performed ↔
      ∃ u, url (w.store.secret .twilioSid) = .ok u ∧
        Success (w.env.fetch 0 (messageRequest w.store u message)) := by
  have hquiet : ∀ r, Footprint.readOnly.fetches r → ∀ text, ¬ Carries text r := fun _ h => h.elim
  have hreads : ∀ k, Footprint.readOnly.reads k := fun _ => trivial
  have hoff : Config.isDebugMode.exec host w = (.ok false, w) := by
    rw [Prog.exec_of_run host (run_isDebugMode w), decide_eq_false hdebug]
  have hset (k : Key) (hk : k ∈ Config.alertKeys) :
      (Config.require k).exec host w = (.ok (w.store.secret k), w) := exec_require w k (hkeys k hk)
  have hname := Prog.exec_of_run host (run_optional w .twilioApiKeySid)
  have hcatch (p : Action Outcome) (g : JSError → Action Outcome)
      (hg : ∀ e, (g e).Within Footprint.readOnly.allows) :
      Accepted w.env ((p.catchWith g).run host w).performed ↔
        Accepted w.env (p.run host w).performed := by
    rw [Prog.run_catchWith, Result.orElse]
    split
    · rfl
    · rw [accepted_append (run_fetch_index p w)]
      exact or_iff_left (not_accepted_within (hg _) hquiet)
  unfold send deliver
  rw [Prog.tryCatch_eq, hcatch]
  · simp only [Prog.bind_eq]
    rw [accepted_bind (Footprint.isDebugMode (hreads _)) hquiet hoff, if_neg Bool.false_ne_true,
      accepted_bind (Footprint.require (hreads _)) hquiet (hset _ (by decide)),
      accepted_bind (Footprint.require (hreads _)) hquiet (hset _ (by decide)),
      accepted_bind (Footprint.optional (hreads _)) hquiet hname,
      accepted_bind (Footprint.consoleIf _ _ _) hquiet (exec_consoleIf w _ _ _)]
    cases hu : url (w.store.secret .twilioSid) with
    | error f =>
      refine iff_of_false id ?_
      rintro ⟨u, hne, -⟩
      cases hne
    | ok u =>
      rw [accepted_bind (Footprint.eval _) hquiet (exec_eval_ok w u),
        accepted_bind (Footprint.require (hreads _)) hquiet (hset _ (by decide)),
        accepted_bind (Footprint.require (hreads _)) hquiet (hset _ (by decide)),
        accepted_fetch message ⟨url_host hu, rfl⟩ within_readResponse hquiet]
      have husername : (if Config.isMissing (w.store .twilioApiKeySid) then none
          else some (w.store.secret .twilioApiKeySid)).getD (w.store.secret .twilioSid) =
          if Config.isMissing (w.store .twilioApiKeySid) then w.store.secret .twilioSid
            else w.store.secret .twilioApiKeySid := by
        split_ifs <;> rfl
      rw [husername]
      constructor
      · exact fun h => ⟨u, rfl, h⟩
      · rintro ⟨u', hu', h⟩
        obtain rfl := Except.ok.inj hu'
        exact h
  · exact fun e => (Footprint.console _ _).bind fun _ => trivial

end SmsService

/-! ## Runs that end well -/

namespace Scheduler

variable [Platform]

/-- What an unpaused run outside debug mode needs in order to get as far as the message. -/
structure Ready (w : World) : Prop where
  keys : ∀ k ∈ Config.alertKeys, Config.isMissing (w.store k) = false
  readable : ∃ tickers, Watchlist.tickersOf (w.store .watchlist) = .ok tickers
  number : w.env.lock 0 = false ∨ w.env.write 0 = none

def Delivers (w : World) : Prop :=
  ∃ tickers u, Watchlist.tickersOf (w.store .watchlist) = .ok tickers ∧
    SmsService.url (w.store.secret .twilioSid) = .ok u ∧
    SmsService.Success (w.env.fetch (callsOf w tickers)
      (SmsService.messageRequest w.store u (textOf w tickers)))

theorem exec_dailyRun_sign {w : World} {tickers : List JSString}
    (hkeys : ∀ k ∈ Config.alertKeys, Config.isMissing (w.store k) = false)
    (ht : Watchlist.tickersOf (w.store .watchlist) = .ok tickers)
    (hpaused : w.store .paused ≠ some (js "true")) :
    ∃ message env, env.lock = w.env.lock ∧ env.write = w.env.write ∧
      dailyRun.exec host w = ((Signer.sign message).bind fun signed =>
        (SmsService.send signed).bind fun _ => Prog.ret ()).exec host ⟨w.store, env⟩ := by
  obtain ⟨hcanonical, hfew⟩ := Watchlist.tickersOf_tracked ht
  obtain ⟨env, hprices, henv⟩ := PriceService.exec_quotesFor w tickers hfew
    (hkeys _ (by decide))
  refine ⟨payload (PriceService.quotesFrom (w.store.secret .alphaVantageKey) tickers w.env), env,
    henv.lock, henv.write, ?_⟩
  unfold dailyRun
  simp only [Prog.bind_eq]
  rw [Prog.exec_bind_ok host (exec_validateForAlert hkeys),
    Prog.exec_bind_ok host (exec_isPaused hpaused), if_neg Bool.false_ne_true,
    Prog.exec_bind_ok host (exec_tickers_ok ht), Prog.exec_bind_ok host hprices,
    Prog.exec_bind_ok host (exec_consoleIf _ _ _ _), summaryLine_quotes (canonical_quotes _ _ hcanonical),
    Prog.exec_bind_ok host (exec_eval_ok _ _)]
  rfl

theorem exec_sign_error {w : World} {message : JSString} {e : JSError}
    (hdebug : w.store.secret .debugMode ≠ js "true") (hl : w.env.lock 0 = true)
    (hwrite : w.env.write 0 = some e) :
    ((Signer.sign message).run host w).outcome = .error e := by
  have hoff : Config.isDebugMode.exec host w = (.ok false, w) := by
    rw [Prog.exec_of_run host (run_isDebugMode w), decide_eq_false hdebug]
  have hset (v : JSString) : (setProperty .secMsgCount v).exec host ⟨w.store, w.env.afterLock⟩ =
      (.error e, ⟨w.store, w.env.afterLock.afterWrite⟩) :=
    Prog.exec_of_run host (run_setProperty_error ⟨w.store, w.env.afterLock⟩ _ _ e hwrite)
  have hclaim : Signer.claim.exec host w =
      (.error e, ⟨w.store, w.env.afterLock.afterWrite⟩) := by
    unfold Signer.claim
    simp only [Prog.bind_eq]
    rw [Prog.exec_bind_ok host hoff, if_neg Bool.false_ne_true, SecurityVault.nextSequence,
      exec_withScriptLock, if_pos hl]
    simp only [Prog.bind_eq]
    rw [Prog.exec_bind_ok host (SecurityVault.exec_currentSequence _),
      Prog.exec_bind_error host (hset _)]
  have hsign : (Signer.sign message).exec host w = (.error e, _) :=
    Prog.exec_bind_error host hclaim
  exact congrArg Prod.fst hsign

theorem ready_of_completed {w : World} (hok : (runDailyAlert.run host w).outcome = .ok ())
    (hpaused : w.store .paused ≠ some (js "true")) (hdebug : w.store.secret .debugMode ≠ js "true") :
    Ready w := by
  -- whatever `dailyRun` throws is thrown again
  have hrethrown : (dailyRun.run host w).outcome = .ok () := by
    unfold runDailyAlert at hok
    rw [Prog.tryCatch_eq, Prog.run_catchWith, Result.orElse] at hok
    split at hok
    · exact hok
    · simp [Prog.run_bind] at hok
  have hkeys : ∀ k ∈ Config.alertKeys, Config.isMissing (w.store k) = false := by
    obtain ⟨_, hvalid, -⟩ := (Prog.outcome_bind host).mp hrethrown
    rw [Config.validateForAlert, run_validate] at hvalid
    split_ifs at hvalid with hnone
    simpa [List.filter_eq_nil_iff] using hnone
  have hreadable : ∃ tickers, Watchlist.tickersOf (w.store .watchlist) = .ok tickers := by
    cases hlist : Watchlist.tickersOf (w.store .watchlist) with
    | ok tickers => exact ⟨tickers, rfl⟩
    | error f =>
      have hread := Watchlist.exec_tickers w
      rw [hlist] at hread
      have hexec : dailyRun.exec host w = (.error (Platform.faultError f), w) := by
        unfold dailyRun
        simp only [Prog.bind_eq]
        rw [Prog.exec_bind_ok host (exec_validateForAlert hkeys),
          Prog.exec_bind_ok host (exec_isPaused hpaused), if_neg Bool.false_ne_true,
          Prog.exec_bind_error host hread]
      have hout := congrArg Prod.fst hexec
      rw [Prog.exec, hrethrown] at hout
      cases hout
  obtain ⟨tickers, ht⟩ := hreadable
  refine ⟨hkeys, ⟨tickers, ht⟩, ?_⟩
  obtain ⟨message, env, hlock, hwrite, hexec⟩ := exec_dailyRun_sign hkeys ht hpaused
  have hout := congrArg Prod.fst hexec
  rw [Prog.exec, hrethrown] at hout
  obtain ⟨_, hsign, -⟩ := (Prog.outcome_bind host).mp hout.symm
  by_contra hneither
  push Not at hneither
  obtain ⟨e, he⟩ := Option.ne_none_iff_exists'.mp hneither.2
  rw [exec_sign_error (w := ⟨w.store, env⟩) hdebug (by simpa [hlock] using hneither.1)
    (by rw [hwrite]; exact he)] at hsign
  cases hsign

theorem within_runDailyAlertWith {F : Footprint} {send : JSString → Action SmsService.Outcome}
    (hr : ∀ k, F.reads k) (hw : F.writes .secMsgCount) (hf : ∀ r, PriceService.Asks r → F.fetches r)
    (hsend : ∀ m, (send m).Within F.allows) : (runDailyAlertWith send).Within F.allows := by
  refine Prog.Within.catchWith ?_ fun _ => (Footprint.console _ _).bind fun _ => trivial
  refine (Footprint.validate fun k _ => hr k).bind fun _ =>
    (Watchlist.within_isPaused (hr _)).bind fun paused => ?_
  split_ifs
  · exact Footprint.console _ _
  · exact (Watchlist.within_tickers (hr _)).bind fun tickers =>
      (PriceService.within_quotesFor tickers (hr _) hf).bind fun _ =>
        (Footprint.consoleIf _ _ _).bind fun _ => (Footprint.eval _).bind fun _ =>
          (Signer.within_sign (fun k _ => hr k) hw).bind fun _ => (hsend _).bind fun _ => trivial

theorem accepted_iff_delivers {w : World} (hready : Ready w)
    (hpaused : w.store .paused ≠ some (js "true")) (hdebug : w.store.secret .debugMode ≠ js "true") :
    (runDailyAlert.run host w).outcome = .ok () ∧
      (SmsService.Accepted w.env (runDailyAlert.run host w).performed ↔ Delivers w) := by
  obtain ⟨tickers, ht⟩ := hready.readable
  obtain ⟨v, ⟨before, hcall⟩, hfetch⟩ := runDailyAlert_callsOnce hready.keys ht hpaused
    (.inr hready.number)
  -- the same run with a procedure that does nothing shows what precedes the call
  have hquiet := hcall (fun _ => Prog.ret .failed) fun _ _ => ⟨_, rfl⟩
  have hwithin : (runDailyAlertWith fun _ => Prog.ret .failed).Within
      (⟨fun _ => True, (· = .secMsgCount), PriceService.Asks⟩ : Footprint).allows :=
    within_runDailyAlertWith (fun _ => trivial) rfl (fun _ h => h) fun _ => trivial
  have hindex := run_fetch_index (runDailyAlertWith fun _ => Prog.ret .failed) w
  have hnone : ¬ SmsService.Accepted w.env
      ((runDailyAlertWith fun _ => Prog.ret .failed).run host w).performed :=
    SmsService.not_accepted_within hwithin fun r hr text htext => PriceService.not_asks_of_carries htext hr
  have hsame (k : Key) (hk : k ≠ .secMsgCount) : v.store k = w.store k := by
    have h := Footprint.unchanged hwithin (k := k) hk w
    rw [hquiet] at h
    exact h
  rw [hquiet] at hindex hnone
  simp only [Prog.run_ret, List.append_nil] at hindex hnone
  rw [runDailyAlert_eq, hcall SmsService.send SmsService.send_neverThrows]
  refine ⟨rfl, ?_⟩
  have hkeys : ∀ k ∈ Config.alertKeys, Config.isMissing (v.store k) = false := by
    intro k hk
    rw [hsame k (by rintro rfl; revert hk; decide)]
    exact hready.keys k hk
  have hdebug' : v.store.secret .debugMode ≠ js "true" := by
    rwa [Store.secret, hsame _ (by decide)]
  have hrequest (u message : JSString) :
      SmsService.messageRequest v.store u message = SmsService.messageRequest w.store u message := by
    simp only [SmsService.messageRequest, Store.secret, hsame _ (by decide : Key.twilioApiKeySid ≠ _),
      hsame _ (by decide : Key.twilioSid ≠ _), hsame _ (by decide : Key.recipientNumber ≠ _),
      hsame _ (by decide : Key.twilioFromNumber ≠ _), hsame _ (by decide : Key.twilioAuthToken ≠ _)]
  have hsid : v.store.secret .twilioSid = w.store.secret .twilioSid := by
    rw [Store.secret, Store.secret, hsame _ (by decide)]
  rw [SmsService.accepted_append hindex, or_iff_right hnone, SmsService.accepted_send hkeys hdebug',
    hsid]
  have hanswer (r : Request) : v.env.fetch 0 r = w.env.fetch (callsOf w tickers) r := by
    rw [hfetch, Nat.zero_add]
  simp only [hrequest, hanswer]
  constructor
  · rintro ⟨u, hu, h⟩
    exact ⟨tickers, u, ht, hu, h⟩
  · rintro ⟨tickers', u, ht', hu, h⟩
    obtain rfl := Except.ok.inj (ht.symm.trans ht')
    exact ⟨u, hu, h⟩

/-- A run that is neither paused nor in debug mode can end well without a text: exactly if it was
ready to send and Twilio did not take the message. -/
theorem runDailyAlert_silent_iff (w : World) :
    ((runDailyAlert.run host w).outcome = .ok () → w.store .paused ≠ some (js "true") →
        w.store.secret .debugMode ≠ js "true" →
        SmsService.Accepted w.env (runDailyAlert.run host w).performed) ↔
      w.store .paused = some (js "true") ∨ w.store.secret .debugMode = js "true" ∨ ¬ Ready w ∨
        Delivers w := by
  by_cases hpaused : w.store .paused = some (js "true")
  · exact iff_of_true (fun _ h => absurd hpaused h) (.inl hpaused)
  by_cases hdebug : w.store.secret .debugMode = js "true"
  · exact iff_of_true (fun _ _ h => absurd hdebug h) (.inr (.inl hdebug))
  by_cases hready : Ready w
  · obtain ⟨hok, haccepted⟩ := accepted_iff_delivers hready hpaused hdebug
    simp [hpaused, hdebug, hready, hok, haccepted]
  · refine iff_of_true (fun hok => ?_) (.inr (.inr (.inl hready)))
    exact absurd (ready_of_completed hok hpaused hdebug) hready

end Scheduler

namespace Scheduler
open AppsScript

/-- With the network down the sample run ends well, and nothing has gone out. -/
theorem runDailyAlert_silent_sample :
    (runDailyAlert.run host ⟨sampleStore, sampleEnv⟩).outcome = .ok () ∧
      sampleStore .paused ≠ some (js "true") ∧ sampleStore.secret .debugMode ≠ js "true" ∧
      ¬ SmsService.Accepted sampleEnv (runDailyAlert.run host ⟨sampleStore, sampleEnv⟩).performed := by
  have hpaused : sampleStore .paused ≠ some (js "true") := by decide
  have hdebug : sampleStore.secret .debugMode ≠ js "true" := by decide
  have hready : Ready ⟨sampleStore, sampleEnv⟩ := ⟨by decide, ⟨_, rfl⟩, .inr rfl⟩
  obtain ⟨hok, haccepted⟩ := accepted_iff_delivers hready hpaused hdebug
  refine ⟨hok, hpaused, hdebug, fun h => ?_⟩
  obtain ⟨_, _, -, -, response, hanswer, -⟩ := haccepted.mp h
  cases hanswer

end Scheduler
end Spazito
