import Spazito.AppsScript
import Spazito.PriceRuns
import Spazito.Reachable

set_option autoImplicit false

/-!
# Replies tell the truth

What each reply says about the watchlist, the flag, the price source and the lock is so.
-/
namespace Spazito
open Ecma Script

section Truth

variable [Platform]

namespace CommandHandler

/-- The watchlist as the program reads it. -/
def Shows (s : Store) (a : Watchlist.Tracked) : Prop := ∀ env,
  (Watchlist.tickers.run host ⟨s, env⟩).outcome = .ok a.tickers ∧
    (Watchlist.isPaused.run host ⟨s, env⟩).outcome = .ok a.paused

theorem shows_of_represents {s : Store} {a : Watchlist.Tracked}
    (h : Watchlist.Represents a (Watchlist.stored s)) : Shows s a := fun env =>
  ⟨by rw [Watchlist.run_tickers (w := ⟨s, env⟩) h], by rw [Watchlist.run_isPaused (w := ⟨s, env⟩) h]⟩

/-- The quote that the price source gives for the ticker, asked in this world. -/
def Quoted (v : World) (ticker : JSString) (result : Except PriceService.Reason JSString) : Prop :=
  ((PriceService.quotesFor [ticker]).run host v).outcome = .ok [⟨ticker, result⟩]

def Named (arg : Option JSString) (ticker : JSString) : Prop :=
  Tickers.normalize (argValue arg) = .ok ticker ∧ Tickers.Canonical ticker

/-- What a reply says: of the argument, of the world `v` in which the command began, and of the
watchlist before and after. -/
def Truthful (arg : Option JSString) (v : World) (s t : Store) (a a' : Watchlist.Tracked) :
    Reply → Prop
  | .added ticker tickers => Named arg ticker ∧ ticker ∉ a.tickers ∧ tickers = a.tickers ++ [ticker] ∧
      a'.tickers = tickers ∧ ∃ price, Quoted v ticker (.ok price)
  | .removed ticker tickers nowEmpty => Named arg ticker ∧ ticker ∈ a.tickers ∧
      tickers = a.tickers.filter (· ≠ ticker) ∧ a'.tickers = tickers ∧
      (nowEmpty = true ↔ tickers = [])
  | .paused => a'.paused = true
  | .resumed => a'.paused = false
  | .unlocked => Watchlist.stored t = Watchlist.stored s ∧
      ∀ env, (SecurityVault.isSealed.run host ⟨t, env⟩).outcome = .ok false
  | .list tickers flag => Watchlist.stored t = Watchlist.stored s ∧
      tickers = a'.tickers ∧ flag = a'.paused
  | .duplicate ticker => Watchlist.stored t = Watchlist.stored s ∧ Named arg ticker ∧ ticker ∈ a.tickers
  | .atCap max => Watchlist.stored t = Watchlist.stored s ∧ max = Watchlist.maxTickers ∧
      a.tickers.length = max
  | .invalidTicker raw => Watchlist.stored t = Watchlist.stored s ∧ raw = arg ∧
      Tickers.isValid (argValue raw) = .ok false
  | .unknownSymbol ticker => Watchlist.stored t = Watchlist.stored s ∧ Named arg ticker ∧
      Quoted v ticker (.error .noQuote)
  | .serviceUnreachable => Watchlist.stored t = Watchlist.stored s ∧
      ∃ ticker reason, Named arg ticker ∧ reason ≠ .noQuote ∧ Quoted v ticker (.error reason)
  | .notTracking ticker => Watchlist.stored t = Watchlist.stored s ∧ Named arg ticker ∧ ticker ∉ a.tickers
  | .busy => Watchlist.stored t = Watchlist.stored s ∧ v.env.lock 0 = false
  | .help => Watchlist.stored t = Watchlist.stored s
  | .auditLog entries => Watchlist.stored t = Watchlist.stored s ∧
      entries = (SecurityVault.lastOf 8 (t.array .secAudit)).reverse

theorem Truthful.congr {arg : Option JSString} {v : World} {s s' t : Store}
    {a a' : Watchlist.Tracked} {r : Reply} (h : Truthful arg v s t a a' r)
    (hs : Watchlist.stored s' = Watchlist.stored s) : Truthful arg v s' t a a' r := by
  cases r <;> simpa only [Truthful, hs] using h

/-! ## The commands -/

variable {v w : World} {a : Watchlist.Tracked} {arg : Option JSString} {r : Reply}

theorem exec_tickers_tracked (ha : Watchlist.Represents a (Watchlist.stored v.store)) :
    Watchlist.tickers.exec host v = (.ok a.tickers, v) := by
  rw [Prog.exec_of_run host (Watchlist.run_tickers ha)]

theorem exec_has {t : JSString} (hc : Tickers.Canonical t)
    (ha : Watchlist.Represents a (Watchlist.stored v.store)) :
    (Watchlist.has (.str t)).exec host v = (.ok (a.tickers.contains t), v) := by
  unfold Watchlist.has
  simp only [Prog.bind_eq]
  rw [Prog.exec_bind_ok host (exec_tickers_tracked ha), Tickers.normalize_str, hc.normalizeText_eq,
    Prog.exec_bind_ok host (exec_eval_ok v t)]
  rfl

theorem exec_isFull (ha : Watchlist.Represents a (Watchlist.stored v.store)) :
    Watchlist.isFull.exec host v = (.ok (decide (Watchlist.maxTickers ≤ a.tickers.length)), v) := by
  unfold Watchlist.isFull
  simp only [Prog.bind_eq]
  rw [Prog.exec_bind_ok host (exec_tickers_tracked ha)]
  rfl

theorem exec_quotesFor_one (t : JSString)
    (hkey : Config.isMissing (v.store .alphaVantageKey) = false) : ∃ result env,
    (PriceService.quotesFor [t]).exec host v = (.ok [⟨t, result⟩], ⟨v.store, env⟩) ∧
      env.lock = v.env.lock ∧ env.write = v.env.write ∧ Quoted v t result := by
  obtain ⟨env, hexec, henv⟩ := PriceService.exec_quotesFor v [t]
    (show 1 ≤ PriceService.maxTickersPerRun by decide) hkey
  obtain ⟨result, hone⟩ : ∃ result, PriceService.quotesFrom (v.store.secret .alphaVantageKey) [t] v.env =
      [⟨t, result⟩] := by
    have hall := PriceService.forall₂_quotesFrom (v.store.secret .alphaVantageKey) [t] v.env
    cases hq : PriceService.quotesFrom (v.store.secret .alphaVantageKey) [t] v.env with
    | nil => rw [hq] at hall; cases hall
    | cons q qs =>
      rw [hq] at hall
      obtain ⟨rfl, hnil⟩ := List.forall₂_cons.mp hall
      obtain rfl := List.forall₂_nil_left_iff.mp hnil
      exact ⟨q.result, rfl⟩
  rw [hone] at hexec
  exact ⟨result, env, hexec, henv.lock, henv.write, congrArg Prod.fst hexec⟩

omit [Platform] in
theorem canonical_of_valid {raw : Value} (h : Tickers.isValid raw = .ok true) :
    ∃ t, Tickers.normalize raw = .ok t ∧ Tickers.Canonical t := by
  unfold Tickers.isValid at h
  cases hn : Tickers.normalize raw with
  | error f =>
    rw [hn] at h
    cases h
  | ok t =>
    rw [hn] at h
    exact ⟨t, rfl, (Tickers.test_pattern t).mp (Except.ok.inj h)⟩

/-- What a command leaves when it ends with a reply. -/
def Tells (arg : Option JSString) (v : World) (a : Watchlist.Tracked) (r : Reply) (t : World) : Prop :=
  ∃ a', Watchlist.Represents a' (Watchlist.stored t.store) ∧ Truthful arg v v.store t.store a a' r

theorem Tells.same {t : World} (ha : Watchlist.Represents a (Watchlist.stored v.store))
    (hsame : Watchlist.stored t.store = Watchlist.stored v.store)
    (h : Truthful arg v v.store t.store a a r) : Tells arg v a r t := ⟨a, hsame ▸ ha, h⟩

omit [Platform] in
theorem replied {x : Reply} {t u : World} (h : (.ret x : Action Reply).exec host u = (.ok r, t)) :
    r = x ∧ t = u := by
  cases h
  exact ⟨rfl, rfl⟩

theorem outcome_cases {o : Watchlist.Operation} {f : Watchlist.Outcome → Action Reply} {t : World}
    (ha : Watchlist.Represents a (Watchlist.stored v.store))
    (h : (o.program.bind f).exec host v = (.ok r, t)) :
    ∃ out u, (f out).exec host u = (.ok r, t) ∧
      ((∃ a', o.apply a = .ok (out, a') ∧ Watchlist.Represents a' (Watchlist.stored u.store)) ∨
        (out = .busy ∧ v.env.lock 0 = false ∧
          Watchlist.stored u.store = Watchlist.stored v.store)) := by
  cases Watchlist.ended_program o ha with
  | done out a' happly hout hrep =>
    have hexec : o.program.exec host v = (.ok out, (o.program.run host v).state) := Prod.ext hout rfl
    rw [Prog.exec_bind_ok host hexec] at h
    exact ⟨out, _, h, .inl ⟨a', happly, hrep⟩⟩
  | busy hlock hout hsame =>
    have hexec : o.program.exec host v = (.ok .busy, (o.program.run host v).state) := Prod.ext hout rfl
    rw [Prog.exec_bind_ok host hexec] at h
    exact ⟨.busy, _, h, .inr ⟨rfl, hlock, hsame⟩⟩
  | threw e hout hsame =>
    have hexec : o.program.exec host v = (.error e, (o.program.run host v).state) := Prod.ext hout rfl
    rw [Prog.exec_bind_error host hexec] at h
    cases h

omit [Platform] in
theorem apply_add {ticker : JSString} (hc : Tickers.Canonical ticker) (hnew : ticker ∉ a.tickers)
    (hroom : a.tickers.length < Watchlist.maxTickers) :
    (Watchlist.Operation.add (.str ticker)).apply a = .ok (.added ticker (a.tickers ++ [ticker]),
      { a with roster := a.roster.append ticker hc hnew hroom }) := by
  simp only [Watchlist.Operation.apply, Tickers.normalize_str, hc.normalizeText_eq, ok_bind,
    dif_pos hc, dif_neg hnew, dif_pos hroom]
  rfl

theorem tells_addQuoted {t u : World} {ticker : JSString} {result : Except PriceService.Reason JSString}
    (ha : Watchlist.Represents a (Watchlist.stored v.store)) (hc : Tickers.Canonical ticker)
    (hnamed : Tickers.normalize (argValue arg) = .ok ticker)
    (hnew : ticker ∉ a.tickers) (hroom : a.tickers.length < Watchlist.maxTickers)
    (hstore : u.store = v.store) (hlock : u.env.lock = v.env.lock) (hquoted : Quoted v ticker result)
    (h : (addQuoted ticker [⟨ticker, result⟩]).exec host u = (.ok r, t)) : Tells arg v a r t := by
  unfold addQuoted at h
  cases result with
  | error reason =>
    have hsame : Watchlist.stored u.store = Watchlist.stored v.store := by rw [hstore]
    cases reason with
    | noQuote =>
      obtain ⟨rfl, rfl⟩ := replied (x := .unknownSymbol ticker) h
      exact .same ha hsame ⟨hsame, ⟨hnamed, hc⟩, hquoted⟩
    | rateLimited | apiError | badPrice | fetchError =>
      obtain ⟨rfl, rfl⟩ := replied (x := .serviceUnreachable) h
      exact .same ha hsame ⟨hsame, ticker, _, ⟨hnamed, hc⟩, by decide, hquoted⟩
  | ok price =>
    have hau : Watchlist.Represents a (Watchlist.stored u.store) := by rwa [hstore]
    obtain ⟨out, u', hsaid, hdone | ⟨rfl, hbusy, hsame⟩⟩ :=
      outcome_cases (o := .add (.str ticker)) (f := addedReply) hau h
    · obtain ⟨a', hdid, hrep⟩ := hdone
      rw [apply_add hc hnew hroom] at hdid
      cases hdid
      cases hsaid
      exact ⟨_, hrep, ⟨hnamed, hc⟩, hnew, rfl, rfl, price, hquoted⟩
    · cases hsaid
      rw [hstore] at hsame
      exact .same ha hsame ⟨hsame, by rw [← hlock]; exact hbusy⟩

theorem tells_add {t : World} (ha : Watchlist.Represents a (Watchlist.stored v.store))
    (hkey : Config.isMissing (v.store .alphaVantageKey) = false)
    (h : (addReply arg).exec host v = (.ok r, t)) : Tells arg v a r t := by
  unfold addReply at h
  simp only [Prog.bind_eq] at h
  obtain ⟨valid, hvalid⟩ := isValid_argValue arg
  rw [hvalid, Prog.exec_bind_ok host (exec_eval_ok v _)] at h
  cases valid with
  | false =>
    cases h
    exact .same ha rfl ⟨rfl, rfl, hvalid⟩
  | true =>
    obtain ⟨ticker, hn, hc⟩ := canonical_of_valid hvalid
    rw [hn] at h
    simp only [Bool.not_true, Bool.false_eq_true, ↓reduceIte] at h
    rw [Prog.exec_bind_ok host (exec_eval_ok v _), Prog.exec_bind_ok host (exec_has hc ha)] at h
    split_ifs at h with hknown
    · cases h
      exact .same ha rfl ⟨rfl, ⟨hn, hc⟩, by simpa using hknown⟩
    · rw [Prog.exec_bind_ok host (exec_isFull ha)] at h
      split_ifs at h with hfull
      · cases h
        exact .same ha rfl ⟨rfl, rfl, le_antisymm a.roster.bounded (by simpa using hfull)⟩
      · obtain ⟨result, env, hquotes, hlock, -, hquoted⟩ := exec_quotesFor_one ticker hkey
        rw [Prog.exec_bind_ok host hquotes] at h
        have hroom : a.tickers.length < Watchlist.maxTickers := by simpa using hfull
        exact tells_addQuoted ha hc hn (by simpa using hknown) hroom (u := ⟨v.store, env⟩) rfl hlock
          hquoted h

theorem exec_remove_absent {raw : Value} {ticker : JSString}
    (ha : Watchlist.Represents a (Watchlist.stored v.store)) (hn : Tickers.normalize raw = .ok ticker)
    (hmem : ticker ∉ a.tickers) : (Watchlist.remove raw).exec host v =
      (.ok (if v.env.lock 0 then .notFound ticker a.tickers else .busy),
        ⟨v.store, v.env.afterLock⟩) := by
  unfold Watchlist.remove
  simp only [Prog.bind_eq]
  rw [hn, Prog.exec_bind_ok host (exec_eval_ok v ticker), Watchlist.withLock, exec_withScriptLock]
  split_ifs with hlock
  · rw [Prog.exec_bind_ok host (exec_tickers_tracked (v := ⟨v.store, v.env.afterLock⟩) ha),
      if_pos (by simpa using hmem)]
    rfl
  · rfl

theorem tells_remove {t : World} (ha : Watchlist.Represents a (Watchlist.stored v.store))
    (h : (removeReply arg).exec host v = (.ok r, t)) : Tells arg v a r t := by
  unfold removeReply at h
  simp only [Prog.bind_eq] at h
  obtain ⟨valid, hvalid⟩ := isValid_argValue arg
  rw [hvalid, Prog.exec_bind_ok host (exec_eval_ok v _)] at h
  cases valid with
  | false =>
    cases h
    exact .same ha rfl ⟨rfl, rfl, hvalid⟩
  | true =>
    obtain ⟨ticker, hn, hc⟩ := canonical_of_valid hvalid
    simp only [Bool.not_true, Bool.false_eq_true, ↓reduceIte] at h
    by_cases hmem : ticker ∈ a.tickers
    · obtain ⟨out, u, hsaid, ⟨a', happly, hrep⟩ | ⟨rfl, hbusy, hsame⟩⟩ :=
        outcome_cases (o := .remove (argValue arg)) (f := removedReply) ha h
      · simp only [Watchlist.Operation.apply, hn, ok_bind, if_pos hmem] at happly
        cases happly
        cases hsaid
        exact ⟨_, hrep, ⟨hn, hc⟩, hmem, rfl, rfl, decide_eq_true_iff⟩
      · cases hsaid
        exact .same ha hsame ⟨hsame, hbusy⟩
    · rw [Prog.exec_bind_ok host (exec_remove_absent ha hn hmem)] at h
      cases hlock : v.env.lock 0 with
      | true =>
        rw [hlock] at h
        obtain ⟨rfl, rfl⟩ := replied (x := .notTracking ticker) h
        exact .same ha rfl ⟨rfl, ⟨hn, hc⟩, hmem⟩
      | false =>
        rw [hlock] at h
        obtain ⟨rfl, rfl⟩ := replied (x := .busy) h
        exact .same ha rfl ⟨rfl, hlock⟩

theorem tells_setPaused {t : World} {b : Bool}
    (ha : Watchlist.Represents a (Watchlist.stored v.store))
    (h : (setPausedReply b).exec host v = (.ok r, t)) : Tells arg v a r t := by
  obtain ⟨out, u, hsaid, ⟨a', happly, hrep⟩ | ⟨rfl, hbusy, hsame⟩⟩ :=
    outcome_cases (o := .setPaused b) (f := pausedReply) ha h
  · cases happly
    cases b with
    | true =>
      cases hsaid
      exact ⟨_, hrep, rfl⟩
    | false =>
      cases hsaid
      exact ⟨_, hrep, rfl⟩
  · cases hsaid
    exact .same ha hsame ⟨hsame, hbusy⟩

theorem tells_reply {intent : CommandParser.Intent} {t : World}
    (ha : Watchlist.Represents a (Watchlist.stored v.store))
    (hkey : Config.isMissing (v.store .alphaVantageKey) = false)
    (hopen : SecurityGate.Unsealed v.store) (h : (reply intent).exec host v = (.ok r, t)) :
    Tells intent.arg v a r t := by
  unfold reply at h
  cases hi : intent.type <;> rw [hi] at h <;> simp only [Prog.bind_eq] at h
  case add => exact tells_add ha hkey h
  case remove => exact tells_remove ha h
  case pause => exact tells_setPaused ha h
  case resume => exact tells_setPaused ha h
  case list =>
    have hpaused : Watchlist.isPaused.exec host v = (.ok a.paused, v) := by
      rw [Prog.exec_of_run host (Watchlist.run_isPaused ha)]
    rw [Prog.exec_bind_ok host (exec_tickers_tracked ha), Prog.exec_bind_ok host hpaused] at h
    obtain ⟨rfl, rfl⟩ := replied h
    exact .same ha rfl ⟨rfl, rfl, rfl⟩
  case help =>
    obtain ⟨rfl, rfl⟩ := replied h
    exact .same ha rfl rfl
  case log =>
    have hrecent : (SecurityVault.recentAudit 8).exec host v =
        (.ok (SecurityVault.lastOf 8 (v.store.array .secAudit)).reverse, v) := by
      unfold SecurityVault.recentAudit
      simp only [Prog.bind_eq]
      rw [Prog.exec_bind_ok host (SecurityVault.exec_readJson .secAudit v)]
      rfl
    rw [Prog.exec_bind_ok host hrecent] at h
    obtain ⟨rfl, rfl⟩ := replied h
    exact .same ha rfl ⟨rfl, rfl⟩
  case unlock =>
    obtain ⟨rfl, rfl⟩ := replied h
    refine .same ha rfl ⟨rfl, fun env => ?_⟩
    rw [SecurityGate.run_isSealed]
    exact congrArg Except.ok (decide_eq_false hopen)

theorem reply_text {intent : CommandParser.Intent} {t : World} {a' : Watchlist.Tracked}
    (haudit : Audited v.store) (htrue : Truthful intent.arg v v.store t.store a a' r)
    (h : (reply intent).exec host v = (.ok r, t)) : ∃ text, r.text = .ok text := by
  cases r with
  | auditLog entries =>
    have hsame := Footprint.unchanged (k := .secAudit) (within_reply_any intent) (by decide) v
    have hstate : ((reply intent).run host v).state = t := congrArg Prod.snd h
    rw [hstate] at hsame
    obtain ⟨trail, htrail⟩ := (audited_congr haudit hsame).array
    have hlast : entries = ((SecurityVault.lastOf 8 trail).reverse).map auditEntry := by
      rw [htrue.2, htrail, SecurityVault.lastOf, SecurityVault.lastOf, List.length_map,
        List.map_reverse, List.map_drop]
    rw [hlast]
    exact Replies.auditLog_trail _
  | _ => exact ⟨_, rfl⟩

/-! ## The whole request -/

def told (e : Option WebhookEvent) : Action Reply := do
  let _ ← SecurityGate.authorize e
  Config.validateForWebhook
  reply (CommandParser.parse (bodyOf e))

theorem gate_exec {e : Option WebhookEvent} (h : Allowed e w) : ∃ d, d.allowed = true ∧
    (SecurityGate.authorize e).exec host w =
      (.ok d, ((SecurityGate.authorize e).run host w).state) := by
  obtain ⟨d, hd, hallowed⟩ := h
  exact ⟨d, hallowed, Prod.ext hd rfl⟩

omit [Platform] in
theorem exec_validateForWebhook (hc : Configured v.store) :
    Config.validateForWebhook.exec host v = (.ok (), v) := by
  have hnone : Config.webhookKeys.filter (fun k => Config.isMissing (v.store k)) = [] :=
    List.filter_eq_nil_iff.mpr fun k hk => by simp [hc k hk]
  rw [Config.validateForWebhook, Prog.exec_of_run host (run_validate v _), if_pos hnone]

theorem callsOnce_reply {e : Option WebhookEvent} {t : World} {text : JSString} (h : Allowed e w)
    (hc : Configured ((SecurityGate.authorize e).run host w).state.store)
    (hr : (reply (CommandParser.parse (bodyOf e))).exec host
      ((SecurityGate.authorize e).run host w).state = (.ok r, t)) (htext : r.text = .ok text) :
    Prog.CallsOnce host (doPostWith e) w text t emptyOk := by
  obtain ⟨d, hallowed, hgate⟩ := gate_exec h
  have hcommands : (commands (CommandParser.parse (bodyOf e))).exec host
      ((SecurityGate.authorize e).run host w).state = (.ok text, t) := by
    rw [commands_eq, Prog.exec_bind_ok host hr, say, htext]
    rfl
  have hanswer : Prog.CallsOnce host (fun send => answerWith send e)
      ((SecurityGate.authorize e).run host w).state text t () :=
    .after (exec_validateForWebhook hc) (.after hcommands (.call _ _ _))
  refine Prog.CallsOnce.catchWith (Prog.CallsOnce.after hgate ?_) _
  rw [hallowed]
  exact hanswer.map fun _ => emptyOk

theorem store_of_callsOnce {e : Option WebhookEvent} {t : World} {text : JSString}
    (h : Prog.CallsOnce host (doPostWith e) w text t emptyOk) :
    ((doPost e).run host w).state.store = t.store := by
  obtain ⟨before, hrun⟩ := h
  rw [doPost_eq, hrun SmsService.send SmsService.send_neverThrows]
  exact funext fun k => Footprint.unchanged (within_idle_send text) id t

variable {P : Env → Prop} {s₀ s : Store}

/-- **Replies tell the truth.** After an allowed request, what is said of the watchlist, of the flag,
of the price source and of the lock is so. -/
theorem replies_truthful (h₀ : Installed s₀) (hs : Reachable P s₀ s) (e : Option WebhookEvent)
    (env : Env) (hallowed : Allowed e ⟨s, env⟩) (r : Reply) (t : World)
    (hr : (told e).exec host ⟨s, env⟩ = (.ok r, t)) :
    let v := ((SecurityGate.authorize e).run host ⟨s, env⟩).state
    let after := ((doPost e).run host ⟨s, env⟩).state.store
    (∃ text, r.text = .ok text ∧ Prog.CallsOnce host (doPostWith e) ⟨s, env⟩ text t emptyOk) ∧
    ∃ a a', Shows s a ∧ Shows after a' ∧
      Truthful (CommandParser.parse (bodyOf e)).arg v s after a a' r := by
  intro v after
  have hsound := hs.sound h₀
  obtain ⟨a, ha⟩ := hsound.stored
  have hsame (k : Key) (hk : k ∉ SecurityGate.securityKeys) : v.store k = s k :=
    Footprint.unchanged (SecurityGate.within_authorize e) hk ⟨s, env⟩
  have hstored : Watchlist.stored v.store = Watchlist.stored s :=
    Prod.ext (hsame _ (by decide)) (hsame _ (by decide))
  have hconf : Configured v.store :=
    (hsound.configured h₀.configured).of_frame (by decide) hsame
  obtain ⟨d, -, hgate⟩ := gate_exec hallowed
  have hreply : (reply (CommandParser.parse (bodyOf e))).exec host v = (.ok r, t) := by
    unfold told at hr
    simp only [Prog.bind_eq] at hr
    rwa [Prog.exec_bind_ok host hgate, Prog.exec_bind_ok host (exec_validateForWebhook hconf)] at hr
  obtain ⟨a', ha', htrue⟩ := tells_reply (by rwa [hstored]) (hconf _ (by decide))
    (SecurityGate.unsealed_of_allowed hallowed) hreply
  have haudit : Audited v.store :=
    (SecurityGate.maintains_authorize e).state (s := ⟨s, env⟩) hsound.audited
  obtain ⟨text, htext⟩ := reply_text haudit htrue hreply
  have hcall := callsOnce_reply hallowed hconf hreply htext
  have hafter : after = t.store := store_of_callsOnce hcall
  refine ⟨⟨text, htext, hcall⟩, a, a', shows_of_represents ha, ?_, ?_⟩
  · rw [hafter]
    exact shows_of_represents ha'
  · rw [hafter]
    exact htrue.congr hstored.symm

end CommandHandler
end Truth

section
open AppsScript

theorem installed_sampleStore : Installed sampleStore := ⟨by decide, by decide⟩

def pauseRequest : Option WebhookEvent :=
  some ⟨some ⟨some (js "token"), some (js "+15550199"), some (js "pause"), some (js "SM1")⟩⟩

theorem allowed_pauseRequest : Allowed pauseRequest ⟨sampleStore, sampleEnv⟩ :=
  ⟨⟨true, false⟩, by decide +kernel, rfl⟩

def saysPaused : Except JSError CommandHandler.Reply → Bool
  | .ok .paused => true
  | _ => false

theorem eq_of_saysPaused {x : Except JSError CommandHandler.Reply} (h : saysPaused x = true) :
    x = .ok .paused := by
  unfold saysPaused at h
  split at h
  · rfl
  · cases h

theorem CommandHandler.replies_truthful_pause : ∃ a,
    Shows ((doPost pauseRequest).run host ⟨sampleStore, sampleEnv⟩).state.store a ∧
      a.paused = true := by
  have hreply := eq_of_saysPaused
    (show saysPaused ((told pauseRequest).run host ⟨sampleStore, sampleEnv⟩).outcome = true by
      decide +kernel)
  obtain ⟨-, _, a, -, hshows, htrue⟩ := replies_truthful installed_sampleStore
    (.start (P := fun _ => True)) pauseRequest sampleEnv allowed_pauseRequest .paused _
    (Prod.ext hreply rfl)
  exact ⟨a, hshows, htrue⟩

end
end Spazito
