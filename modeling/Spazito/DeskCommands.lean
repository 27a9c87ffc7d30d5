import Spazito.Desk
import Spazito.WebhookOnce

set_option autoImplicit false

/-!
# Commands as the desk answers them

With nobody else at the lock, a command ends with the reply of the desk and leaves what the desk tracks.
-/
namespace Spazito
open Ecma Script

/-- Every lock is free and every write succeeds; what the network answers is open. -/
structure Env.Calm (env : Env) : Prop where
  lock : ∀ i, env.lock i = true
  writes : env.Writes

section Commands

variable [Platform]

omit [Platform] in
theorem calm_run {α : Type} (p : Action α) {w : World} (h : w.env.Calm) :
    (p.run host w).state.env.Calm := by
  refine ⟨?_, writes_run p h.writes⟩
  refine (Prog.within_of_forall (A := fun _ => True) (fun _ => trivial) p).preserves
    (fun v => ∀ i, v.env.lock i = true) (fun c v _ hv => ?_) w h.lock
  rcases c with (_ | ⟨k, t⟩ | _ | _ | _ | _) | _ | _
  case op.setProperty =>
    rw [host]
    cases v.env.write 0 <;> exact hv
  case waitLock => exact fun i => hv (i + 1)
  all_goals exact hv

namespace Desk

variable {v : World} {a : Watchlist.Tracked} {prices : Prices} {s₀ : Store}

theorem exec_operation (op : Watchlist.Operation) {out : Watchlist.Outcome} {a' : Watchlist.Tracked}
    (ha : Watchlist.Represents a (Watchlist.stored v.store)) (hcalm : v.env.Calm)
    (happly : op.apply a = .ok (out, a')) :
    ∃ t, op.program.exec host v = (.ok out, t) ∧
      Watchlist.Represents a' (Watchlist.stored t.store) := by
  cases Watchlist.ended_program op ha with
  | done out' a'' happly' hout hrep =>
    rw [happly] at happly'
    cases happly'
    exact ⟨_, Prod.ext hout rfl, hrep⟩
  | busy hlock _ _ =>
    rw [hcalm.lock 0] at hlock
    cases hlock
  | threw e hout _ =>
    obtain ⟨x, t, hx⟩ := Watchlist.program_succeeds ha hcalm.writes ⟨_, happly⟩
    have herror := congrArg Prod.fst hx
    rw [Prog.exec, hout] at herror
    cases herror

omit [Platform] in
theorem normalize_argValue (arg : Option JSString) :
    Tickers.normalize (CommandHandler.argValue arg) = .ok (wanted arg) := by
  cases arg <;> rfl

omit [Platform] in
theorem isValid_argValue (arg : Option JSString) :
    Tickers.isValid (CommandHandler.argValue arg) = .ok (decide (Tickers.Canonical (wanted arg))) := by
  rw [Tickers.isValid, normalize_argValue, Except.map, Except.ok.injEq, Bool.eq_iff_iff,
    decide_eq_true_iff]
  exact Tickers.test_pattern _

/-- The price source quotes one ticker in this world at these prices, and nothing is written. -/
def Quotes (prices : Prices) (v : World) : Prop := ∀ ticker, ∃ env,
  (PriceService.quotesFor [ticker]).exec host v = (.ok [⟨ticker, prices ticker⟩], ⟨v.store, env⟩) ∧
    env.lock = v.env.lock ∧ env.write = v.env.write

theorem exec_addReply (ha : Watchlist.Represents a (Watchlist.stored v.store)) (hcalm : v.env.Calm)
    (hprices : Quotes prices v) (arg : Option JSString) :
    ∃ t, (CommandHandler.addReply arg).exec host v = (.ok (answerAdd a prices arg).1, t) ∧
      Watchlist.Represents (answerAdd a prices arg).2 (Watchlist.stored t.store) := by
  unfold CommandHandler.addReply answerAdd
  simp only [Prog.bind_eq]
  rw [isValid_argValue, normalize_argValue, Prog.exec_bind_ok host (exec_eval_ok v _)]
  by_cases hc : Tickers.Canonical (wanted arg)
  · rw [dif_pos hc, decide_eq_true hc, if_neg (by simp),
      Prog.exec_bind_ok host (exec_eval_ok v _),
      Prog.exec_bind_ok host (CommandHandler.exec_has hc ha)]
    by_cases hold : a.tickers.contains (wanted arg) = true
    · rw [dif_pos hold, if_pos hold]
      exact ⟨v, rfl, ha⟩
    · rw [dif_neg hold, if_neg hold,
        Prog.exec_bind_ok host (CommandHandler.exec_isFull ha)]
      by_cases hroom : a.tickers.length < Watchlist.maxTickers
      · rw [dif_pos hroom, if_neg (by simpa using hroom)]
        obtain ⟨env, hquotes, hlock, hwrite⟩ := hprices (wanted arg)
        rw [Prog.exec_bind_ok host hquotes]
        unfold CommandHandler.addQuoted
        cases prices (wanted arg) with
        | error reason => cases reason <;> exact ⟨⟨v.store, env⟩, rfl, ha⟩
        | ok price =>
          have hcalm' : env.Calm := ⟨by rw [hlock]; exact hcalm.lock, by
            unfold Env.Writes
            rw [hwrite]
            exact hcalm.writes⟩
          obtain ⟨t, hexec, hrep⟩ := exec_operation (v := ⟨v.store, env⟩)
            (.add (.str (wanted arg))) ha hcalm'
            (CommandHandler.apply_add hc (mt List.contains_iff_mem.mpr hold) hroom)
          refine ⟨t, ?_, hrep⟩
          change ((Watchlist.add (.str (wanted arg))).bind CommandHandler.addedReply).exec host _ = _
          change (Watchlist.add (.str (wanted arg))).exec host _ = _ at hexec
          rw [Prog.exec_bind_ok host hexec]
          rfl
      · rw [dif_neg hroom, if_pos (by simpa using hroom)]
        exact ⟨v, rfl, ha⟩
  · rw [dif_neg hc, decide_eq_false hc]
    exact ⟨v, rfl, ha⟩

theorem exec_removeReply (ha : Watchlist.Represents a (Watchlist.stored v.store)) (hcalm : v.env.Calm)
    (arg : Option JSString) :
    ∃ t, (CommandHandler.removeReply arg).exec host v = (.ok (answerRemove a arg).1, t) ∧
      Watchlist.Represents (answerRemove a arg).2 (Watchlist.stored t.store) := by
  unfold CommandHandler.removeReply answerRemove
  simp only [Prog.bind_eq]
  rw [isValid_argValue, Prog.exec_bind_ok host (exec_eval_ok v _)]
  by_cases hc : Tickers.Canonical (wanted arg)
  · rw [if_pos hc, decide_eq_true hc, if_neg (by simp)]
    by_cases hmem : wanted arg ∈ a.tickers
    · rw [if_pos (List.contains_iff_mem.mpr hmem)]
      obtain ⟨t, hexec, hrep⟩ := exec_operation (.remove (CommandHandler.argValue arg)) ha hcalm
        (by simp only [Watchlist.Operation.apply, normalize_argValue, ok_bind, if_pos hmem]; rfl)
      exact ⟨t, Prog.exec_bind_ok host hexec, hrep⟩
    · rw [if_neg (mt List.contains_iff_mem.mp hmem)]
      obtain ⟨t, hexec, hrep⟩ := exec_operation (.remove (CommandHandler.argValue arg)) ha hcalm
        (by simp only [Watchlist.Operation.apply, normalize_argValue, ok_bind, if_neg hmem]; rfl)
      exact ⟨t, Prog.exec_bind_ok host hexec, hrep⟩
  · rw [if_neg hc, decide_eq_false hc]
    exact ⟨v, rfl, ha⟩

theorem exec_setPausedReply (ha : Watchlist.Represents a (Watchlist.stored v.store))
    (hcalm : v.env.Calm) (paused : Bool) :
    ∃ t, (CommandHandler.setPausedReply paused).exec host v =
        (.ok (if paused then .paused else .resumed), t) ∧
      Watchlist.Represents { a with paused := paused } (Watchlist.stored t.store) := by
  obtain ⟨t, hexec, hrep⟩ := exec_operation (.setPaused paused) ha hcalm rfl
  change (Watchlist.setPaused paused).exec host v = _ at hexec
  refine ⟨t, ?_, hrep⟩
  unfold CommandHandler.setPausedReply
  simp only [Prog.bind_eq]
  rw [Prog.exec_bind_ok host hexec]
  cases paused <;> rfl

omit [Platform] in
theorem recent_eq (trail : List AuditEntry) :
    (SecurityVault.lastOf 8 ((SecurityVault.lastOf SecurityVault.maxAuditEntries trail).map
      auditEntry)).reverse = (trail.reverse.take 8).map auditEntry := by
  rw [SecurityVault.reverse_lastOf, ← List.map_reverse, SecurityVault.reverse_lastOf, ← List.map_take,
    List.take_take]
  rfl

theorem exec_answer {d : Desk} (ha : Watchlist.Represents d.tracked (Watchlist.stored v.store))
    (ht : SecurityVault.Trails v.store d.trail) (hcalm : v.env.Calm) (hprices : Quotes prices v)
    (intent : CommandParser.Intent) :
    ∃ t, (CommandHandler.reply intent).exec host v = (.ok (d.answer prices intent).1, t) ∧
      Watchlist.Represents (d.answer prices intent).2 (Watchlist.stored t.store) := by
  obtain ⟨type, arg⟩ := intent
  unfold CommandHandler.reply answer
  cases type with
  | add => exact exec_addReply ha hcalm hprices arg
  | remove => exact exec_removeReply ha hcalm arg
  | pause => exact exec_setPausedReply ha hcalm true
  | resume => exact exec_setPausedReply ha hcalm false
  | list =>
    have hpaused : Watchlist.isPaused.exec host v = (.ok d.tracked.paused, v) := by
      rw [Prog.exec_of_run host (Watchlist.run_isPaused ha)]
    simp only [Prog.bind_eq]
    rw [Prog.exec_bind_ok host (CommandHandler.exec_tickers_tracked ha),
      Prog.exec_bind_ok host hpaused]
    exact ⟨v, rfl, ha⟩
  | log =>
    have hrecent : (SecurityVault.recentAudit 8).exec host v =
        (.ok ((d.trail.reverse.take 8).map auditEntry), v) := by
      rw [← recent_eq, ← ht]
      exact Prog.exec_bind_ok host (SecurityVault.exec_readJson .secAudit v)
    simp only [Prog.bind_eq]
    rw [Prog.exec_bind_ok host hrecent]
    exact ⟨v, rfl, ha⟩
  | help | unlock => exact ⟨v, rfl, ha⟩

/-! ## Their words and prices -/

omit [Platform] in
theorem quotesFrom_congr {env env' : Env} (h : env'.fetch = env.fetch) (apiKey : JSString)
    (tickers : List JSString) :
    PriceService.quotesFrom apiKey tickers env' = PriceService.quotesFrom apiKey tickers env := by
  induction tickers generalizing env env' with
  | nil => rfl
  | cons ticker rest ih =>
    have hnext : env'.afterFetch.fetch = env.afterFetch.fetch := funext fun i => congrFun h (i + 1)
    unfold PriceService.quotesFrom
    rw [h, ih h, ih hnext]

omit [Platform] in
theorem answer_text (d : Desk) (prices : Prices) (intent : CommandParser.Intent) :
    ∃ text, (d.answer prices intent).1.text = .ok text := by
  obtain ⟨type, arg⟩ := intent
  cases type with
  | add =>
    unfold answer answerAdd
    dsimp only
    split_ifs
    · exact ⟨_, rfl⟩
    · split <;> exact ⟨_, rfl⟩
    · exact ⟨_, rfl⟩
    · exact ⟨_, rfl⟩
  | remove =>
    unfold answer answerRemove
    dsimp only
    split_ifs <;> exact ⟨_, rfl⟩
  | log => exact Replies.auditLog_trail _
  | pause | resume | list | help | unlock => exact ⟨_, rfl⟩

theorem quotes_pricesIn (hsecret : v.store.secret .alphaVantageKey = s₀.secret .alphaVantageKey)
    (hkey : Config.isMissing (v.store .alphaVantageKey) = false) {env : Env}
    (hfetch : v.env.fetch = env.fetch) : Quotes (pricesIn s₀ env) v := by
  intro ticker
  obtain ⟨env', hexec, henv⟩ := PriceService.exec_quotesFor v [ticker]
    (show 1 ≤ PriceService.maxTickersPerRun by decide) hkey
  refine ⟨env', ?_, henv.lock, henv.write⟩
  rw [hexec, hsecret, quotesFrom_congr hfetch, pricesIn]
  have hall := PriceService.forall₂_quotesFrom (s₀.secret .alphaVantageKey) [ticker] env
  cases hq : PriceService.quotesFrom (s₀.secret .alphaVantageKey) [ticker] env with
  | nil =>
    rw [hq] at hall
    cases hall
  | cons quote quotes =>
    rw [hq] at hall
    obtain ⟨rfl, hnil⟩ := List.forall₂_cons.mp hall
    rw [List.forall₂_nil_left_iff.mp hnil]

end Desk

end Commands
end Spazito
