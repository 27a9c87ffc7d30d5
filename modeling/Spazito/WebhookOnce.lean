import Spazito.ReplayWindow
import Spazito.WebhookIsolation
import Spazito.WebhookReplies

set_option autoImplicit false

/-!
# One reply, at most one paid call

What a request sends and asks for, as long as property writes succeed.
-/
namespace Spazito
open Ecma Script

/-! ## The lockout in every reachable store -/

theorem Vault.step_justSealed (v : Vault) (q : Showing) (now : Time)
    (lock : ℕ → Bool) : (v.step q now lock).1.justSealed = true ↔
      v.isSealed = false ∧ (v.step q now lock).2.isSealed = true := by
  have hrecord (sid : JSString) : (v.record now sid).isSealed = v.isSealed := rfl
  rw [Vault.step]
  cases hs : v.isSealed with
  | true =>
    cases v.unlocking q now (lock 0) with
    | none => simp
    | some sid => cases lock 1 <;> simp
  | false =>
    cases q.tokenOk && q.fromOk with
    | true => cases v.passing q.sid now (lock 0) <;> simp [hrecord, hs]
    | false => cases q.tokenOk && lock 0 <;> simp [hs]

def Vaulted (s : Store) : Prop := ∃ v : Vault, Represents s v ∧ v.Bounded

section Runs

variable [Platform] {s₀ s : Store}

omit [Platform] in
theorem vaulted_congr {s t : Store} (h : Vaulted s)
    (hk : ∀ k ∈ SecurityGate.securityKeys, t k = s k) : Vaulted t := by
  obtain ⟨v, hv, hb⟩ := h
  have hsub : ∀ k ∈ [Key.secFailures, .secSealed, .secSeenSids], k ∈ SecurityGate.securityKeys := by
    decide
  exact ⟨v, SecurityGate.represents_congr hv fun k hk' => hk k (hsub k hk'), hb⟩

/-- After the gate: the lockout is still told by the store, and who sealed the bot is told so. -/
theorem Vaulted.authorize {w : World} (h : Vaulted w.store) (hc : Configured w.store)
    (hw : w.env.Writes) (e : Option WebhookEvent) :
    let r := (SecurityGate.authorize e).run host w
    Vaulted r.state.store ∧ ∃ d, r.outcome = .ok d ∧
      (d.justSealed = true ↔ w.store.isSealed = false ∧ r.state.store.isSealed = true) := by
  intro r
  obtain ⟨v, hv, hb⟩ := h
  have hf := SecurityGate.authorize_follows e hc hv hw (hb.1.trans_lt (by decide))
  refine ⟨⟨_, hf.represents, hb.step _ _ _⟩, _, hf.decision, ?_⟩
  rw [v.step_justSealed, hv.isSealed, hf.represents.isSealed]
  rfl

theorem CommandHandler.doPost_security (e : Option WebhookEvent) (w : World) :
    ∀ k ∈ SecurityGate.securityKeys, ((doPost e).run host w).state.store k =
      ((SecurityGate.authorize e).run host w).state.store k := by
  intro k hk
  have hsend (text : JSString) :
      (SmsService.send text).Within (replyFootprint fun _ => True).allows :=
    SmsService.within_send (fun _ _ => trivial) fun _ _ => trivial
  have hanswer : (answer e).Within (replyFootprint fun _ => True).allows := by
    rw [answer_eq]
    exact (Footprint.validate fun _ _ => trivial).bind fun _ => (within_reply_any _).bind fun r =>
      (Footprint.eval _).bind fun text => (hsend text).bind fun _ => trivial
  have hdisjoint : ∀ k ∈ SecurityGate.securityKeys, k ∉ [Key.watchlist, .paused] := by decide
  refine Footprint.unchanged_after (F := replyFootprint fun _ => True) (fun auth => ?_) (fun err => ?_)
    (hdisjoint k hk) w
  · split_ifs
    · exact (hsend _).bind fun _ => trivial
    · trivial
    · exact hanswer.bind fun _ => trivial
  · exact (Footprint.console _ _).bind fun _ => trivial

theorem Reachable.vaulted (h₀ : Installed s₀) (h : Reachable Env.Writes s₀ s) : Vaulted s := by
  induction h with
  | start =>
    have hsub : ∀ k ∈ SecurityGate.securityKeys, k ∈ ownKeys := by decide
    exact ⟨_, SecurityGate.represents_unset fun k hk => h₀.unset k (hsub k hk),
      ⟨Nat.zero_le _, fun _ => Nat.zero_lt_succ _⟩⟩
  | doPost e before henv ih =>
    have hc := (before.sound h₀).configured h₀.configured
    have hgate := (ih.authorize (w := ⟨_, _⟩) hc henv e).1
    exact vaulted_congr hgate (CommandHandler.doPost_security e _)
  | runDailyAlert before henv ih =>
    exact vaulted_congr ih fun k hk =>
      Footprint.unchanged Scheduler.within_runDailyAlert (by rintro rfl; revert hk; decide) _

/-! ## Every command has a reply -/

namespace Watchlist

variable {a : Tracked} {w : World}

theorem program_succeeds {op : Operation} (ha : Represents a (stored w.store)) (hw : w.env.Writes)
    (hread : ∃ y, op.apply a = .ok y) : ∃ out w', op.program.exec host w = (.ok out, w') := by
  have htickers (u : World) (hu : u.store = w.store) :
      tickers.exec host u = (.ok a.tickers, u) :=
    CommandHandler.exec_tickers_tracked (by rwa [hu])
  have hstore (ts : List JSString) (out : Outcome) : ∃ w',
      ((store ts).bind fun _ => .ret out : Action Outcome).exec host ⟨w.store, w.env.afterLock⟩ =
        (.ok out, w') := by
    have hset : (store ts).exec host ⟨w.store, w.env.afterLock⟩ = (.ok (), _) :=
      exec_setProperty _ _ _ (hw 0)
    exact ⟨_, Prog.exec_bind_ok host hset⟩
  obtain ⟨y, hy⟩ := hread
  rw [Operation.program_eq]
  cases hp : op.plan with
  | error f =>
    rw [Operation.plan_error hp a] at hy
    cases hy
  | ok step =>
    cases step with
    | inl out => exact ⟨out, w, rfl⟩
    | inr mutate =>
      change ∃ out w', (withLock mutate).exec host w = (.ok out, w')
      rw [withLock, exec_withScriptLock]
      split_ifs with hlock
      · have hread := htickers ⟨w.store, w.env.afterLock⟩ rfl
        cases op with
        | add raw =>
          cases hn : Tickers.normalize raw with
          | error f => simp [Operation.plan, hn] at hp
          | ok t =>
            simp only [Operation.plan, hn, ok_bind, pure_eq_ok, Except.ok.injEq] at hp
            split_ifs at hp
            obtain rfl := Sum.inr.inj hp
            unfold addUnderLock
            simp only [Prog.bind_eq]
            rw [Prog.exec_bind_ok host hread]
            split_ifs
            · exact ⟨_, _, rfl⟩
            · exact ⟨_, _, rfl⟩
            · exact ⟨_, hstore _ _⟩
        | remove raw =>
          cases hn : Tickers.normalize raw with
          | error f => simp [Operation.plan, hn] at hp
          | ok t =>
            simp only [Operation.plan, hn, ok_bind, pure_eq_ok, Except.ok.injEq] at hp
            obtain rfl := Sum.inr.inj hp
            unfold removeUnderLock
            simp only [Prog.bind_eq]
            rw [Prog.exec_bind_ok host hread]
            split_ifs
            · exact ⟨_, _, rfl⟩
            · exact ⟨_, hstore _ _⟩
        | setPaused b =>
          obtain rfl := Sum.inr.inj (Except.ok.inj hp)
          exact ⟨_, _, Prog.exec_bind_ok host (exec_setProperty _ _ _ (hw 0))⟩
      · exact ⟨.busy, _, rfl⟩

/-- It comes to what the abstract operation comes to, or finds the lock busy. -/
theorem exec_program {o : Operation} {out : Outcome} {a' : Tracked}
    (ha : Represents a (stored w.store)) (hw : w.env.Writes) (happly : o.apply a = .ok (out, a')) :
    ∃ w', o.program.exec host w = (.ok out, w') ∨ o.program.exec host w = (.ok .busy, w') := by
  cases ended_program o ha with
  | done out' _ happly' hout _ =>
    rw [happly] at happly'
    cases happly'
    exact ⟨_, .inl (Prod.ext hout rfl)⟩
  | busy _ hout _ => exact ⟨_, .inr (Prod.ext hout rfl)⟩
  | threw e hout _ =>
    obtain ⟨x, w', hx⟩ := program_succeeds ha hw ⟨_, happly⟩
    have herror := congrArg Prod.fst hx
    rw [Prog.exec, hout] at herror
    cases herror

end Watchlist

namespace CommandHandler

variable {v : World} {a : Watchlist.Tracked}

theorem addReply_succeeds (arg : Option JSString)
    (ha : Watchlist.Represents a (Watchlist.stored v.store)) (hw : v.env.Writes)
    (hkey : Config.isMissing (v.store .alphaVantageKey) = false) :
    ∃ r t, (addReply arg).exec host v = (.ok r, t) := by
  unfold addReply
  simp only [Prog.bind_eq]
  obtain ⟨valid, hvalid⟩ := isValid_argValue arg
  rw [hvalid, Prog.exec_bind_ok host (exec_eval_ok v _)]
  cases valid with
  | false => exact ⟨_, _, rfl⟩
  | true =>
    obtain ⟨ticker, hn, hc⟩ := canonical_of_valid hvalid
    simp only [Bool.not_true, Bool.false_eq_true, ↓reduceIte]
    rw [hn, Prog.exec_bind_ok host (exec_eval_ok v _), Prog.exec_bind_ok host (exec_has hc ha)]
    split_ifs with hknown
    · exact ⟨_, _, rfl⟩
    · rw [Prog.exec_bind_ok host (exec_isFull ha)]
      split_ifs with hfull
      · exact ⟨_, _, rfl⟩
      · obtain ⟨result, env, hquotes, -, hwrite, -⟩ := exec_quotesFor_one ticker hkey
        rw [Prog.exec_bind_ok host hquotes]
        cases result with
        | error reason => cases reason <;> exact ⟨_, _, rfl⟩
        | ok price =>
          have hw' : env.Writes := fun i => by rw [hwrite, hw i]
          obtain ⟨u, hdone | hbusy⟩ := Watchlist.exec_program (w := ⟨v.store, env⟩) ha hw'
            (apply_add hc (by simpa using hknown) (by simpa using hfull))
          · exact ⟨_, _, Prog.exec_bind_ok host hdone⟩
          · exact ⟨_, _, Prog.exec_bind_ok host hbusy⟩

theorem removeReply_succeeds (arg : Option JSString)
    (ha : Watchlist.Represents a (Watchlist.stored v.store)) (hw : v.env.Writes) :
    ∃ r t, (removeReply arg).exec host v = (.ok r, t) := by
  unfold removeReply
  simp only [Prog.bind_eq]
  obtain ⟨valid, hvalid⟩ := isValid_argValue arg
  rw [hvalid, Prog.exec_bind_ok host (exec_eval_ok v _)]
  cases valid with
  | false => exact ⟨_, _, rfl⟩
  | true =>
    obtain ⟨ticker, hn, -⟩ := canonical_of_valid hvalid
    have happly : (Watchlist.Operation.remove (argValue arg)).apply a = .ok
        (if ticker ∈ a.tickers then
          (.removed ticker (a.roster.drop ticker).items ((a.roster.drop ticker).items = []),
            { a with roster := a.roster.drop ticker })
        else (.notFound ticker a.tickers, a)) := by
      rw [Watchlist.Operation.apply, hn]
      by_cases hmem : ticker ∈ a.tickers <;> simp [hmem]
    simp only [Bool.not_true, Bool.false_eq_true, ↓reduceIte]
    split_ifs at happly with hmem
    · obtain ⟨u, hdone | hbusy⟩ := Watchlist.exec_program ha hw happly
      · exact ⟨_, _, Prog.exec_bind_ok host hdone⟩
      · exact ⟨_, _, Prog.exec_bind_ok host hbusy⟩
    · obtain ⟨u, hdone | hbusy⟩ := Watchlist.exec_program ha hw happly
      · exact ⟨_, _, Prog.exec_bind_ok host hdone⟩
      · exact ⟨_, _, Prog.exec_bind_ok host hbusy⟩

theorem setPausedReply_succeeds (b : Bool)
    (ha : Watchlist.Represents a (Watchlist.stored v.store)) (hw : v.env.Writes) :
    ∃ r t, (setPausedReply b).exec host v = (.ok r, t) := by
  obtain ⟨u, hdone | hbusy⟩ := Watchlist.exec_program (o := .setPaused b) ha hw rfl
  · cases b <;> exact ⟨_, _, Prog.exec_bind_ok host hdone⟩
  · exact ⟨_, _, Prog.exec_bind_ok host hbusy⟩

theorem reply_succeeds (intent : CommandParser.Intent)
    (ha : Watchlist.Represents a (Watchlist.stored v.store)) (hw : v.env.Writes)
    (hkey : Config.isMissing (v.store .alphaVantageKey) = false) :
    ∃ r t, (reply intent).exec host v = (.ok r, t) := by
  unfold reply
  cases intent.type with
  | add => exact addReply_succeeds _ ha hw hkey
  | remove => exact removeReply_succeeds _ ha hw
  | pause | resume => exact setPausedReply_succeeds _ ha hw
  | list =>
    simp only [Prog.bind_eq]
    rw [Prog.exec_bind_ok host (exec_tickers_tracked ha)]
    exact ⟨_, _, rfl⟩
  | log =>
    have hread : (SecurityVault.recentAudit 8).exec host v = (.ok _, v) :=
      Prog.exec_bind_ok host (SecurityVault.exec_readJson .secAudit v)
    exact ⟨_, _, Prog.exec_bind_ok host hread⟩
  | help | unlock => exact ⟨_, _, rfl⟩

end CommandHandler

/-! ## How many requests go to the price source -/

namespace PriceService

variable {α β : Type} {w : World}

omit [Platform] in
def asked (c : Cmd GAS) : Prop :=
  match c with
  | .op (.fetch r) => apiHost.isPrefixOf r.url = true
  | _ => False

instance : DecidablePred asked := fun c => by
  rcases c with (_ | _ | _ | _ | _ | _) | _ | _ <;> unfold asked <;> infer_instance

omit [Platform] in
theorem length_requests (t : Trace) : (requests t).length = t.countP asked := by
  rw [requests, List.length_filterMap_eq_countP]
  refine List.countP_congr fun c _ => ?_
  rcases c with (_ | _ | _ | _ | _ | _) | _ | _
  case op.fetch => simp [asked]
  all_goals rfl

omit [Platform] in
theorem not_asked {F : Footprint} (hF : ∀ r, F.fetches r → ¬ Asks r) (c : Cmd GAS)
    (hc : F.allows c) : ¬ asked c := by
  rcases c with (_ | _ | r | _ | _ | _) | _ | _
  case op.fetch => exact fun h => hF r hc (List.isPrefixOf_iff_prefix.mp h)
  all_goals exact id

omit [Platform] in
theorem atMost_zero {F : Footprint} {p : Action α} (hp : p.Within F.allows)
    (hF : ∀ r, F.fetches r → ¬ Asks r) : p.AtMost asked 0 := hp.atMost (not_asked hF)

omit [Platform] in
theorem atMost_readOnly {p : Action α} (hp : p.Within Footprint.readOnly.allows) :
    p.AtMost asked 0 := atMost_zero hp fun _ h => h.elim

theorem atMost_quote (ticker apiKey : JSString) : (quote ticker apiKey).AtMost asked 1 := by
  have hfetch (r : Request) : (fetch r).AtMost asked 1 := by
    have hrest (x : Except JSError Response) : (Prog.orRaise x : Action Response).AtMost asked 0 := by
      cases x <;> trivial
    by_cases hr : asked (.op (.fetch r))
    · exact .inr ⟨0, rfl, hrest⟩
    · exact .inl ⟨hr, fun x => (hrest x).mono (Nat.zero_le _)⟩
  refine Prog.AtMost.catchWith (m := 1) (n := 0) ?_ fun e =>
    atMost_readOnly ((Footprint.console _ _).bind fun _ => trivial)
  refine Prog.AtMost.bind (m := 0) (atMost_readOnly (Footprint.eval _)) fun u =>
    Prog.AtMost.bind (m := 1) (n := 0) (hfetch _) fun response => atMost_readOnly ?_
  split_ifs
  · exact (Footprint.console _ _).bind fun _ => trivial
  · split
    · trivial
    · exact within_readBody (fun _ _ => trivial) ticker _

theorem atMost_quotesLoop (apiKey : JSString) (first : Bool) (tickers : List JSString) :
    (quotesLoop apiKey first tickers).AtMost asked tickers.length := by
  induction tickers generalizing first with
  | nil => trivial
  | cons ticker rest ih =>
    have hspace : (spaceCalls first).AtMost asked 0 := by
      unfold spaceCalls
      split_ifs
      · trivial
      · exact atMost_readOnly (Footprint.sleep _)
    have hone : ((spaceCalls first).bind fun _ => (quote ticker apiKey).bind fun q =>
        if q.isRateLimited then (console .warn (js "Rate limited at " ++ ticker ++
          js "; not spending calls on the remaining " ++ decimal rest.length ++
          js " ticker(s).")).bind fun _ => .ret (q :: rest.map fun t => failure t .rateLimited)
        else (quotesLoop apiKey false rest).bind fun qs => .ret (q :: qs) :
          Action (List Quote)).AtMost asked (0 + (1 + rest.length)) := by
      refine hspace.bind fun _ => (atMost_quote ticker apiKey).bind fun q => ?_
      split_ifs
      · refine Prog.AtMost.mono (m := 0) (atMost_readOnly ?_) (Nat.zero_le _)
        exact (Footprint.console _ _).bind fun _ => trivial
      · exact (ih false).bind (n := 0) fun _ => trivial
    rw [List.length_cons, Nat.add_comm, ← Nat.zero_add (1 + rest.length)]
    exact hone

theorem atMost_quotesFor_one (ticker : JSString) : (quotesFor [ticker]).AtMost asked 1 := by
  unfold quotesFor
  rw [if_neg (List.cons_ne_nil _ _)]
  exact Prog.AtMost.bind (m := 0) (n := 1) (atMost_readOnly (Footprint.consoleIf _ _ _)) fun _ =>
    Prog.AtMost.bind (m := 0) (n := 1) (atMost_readOnly (Footprint.require trivial)) fun apiKey =>
      atMost_quotesLoop apiKey true [ticker]

def Unasked (p : Action α) (w : World) : Prop := requests (p.run host w).performed = []

omit [Platform] in
theorem unasked_of_atMost {p : Action α} (hp : p.AtMost asked 0) (w : World) : Unasked p w := by
  have hle := hp.countP_le host w
  rw [← length_requests] at hle
  exact List.eq_nil_of_length_eq_zero (Nat.le_zero.mp hle)

omit [Platform] in
theorem Unasked.bind {p : Action α} {f : α → Action β} (hp : Unasked p w)
    (hf : ∀ a v, p.exec host w = (.ok a, v) → Unasked (f a) v) : Unasked (p.bind f) w := by
  unfold Unasked
  rw [Prog.run_bind, Result.andThen]
  cases hout : (p.run host w).outcome with
  | error e => exact hp
  | ok a =>
    have hrest := hf a _ (Prod.ext hout rfl)
    unfold Unasked at hp hrest
    rw [requests, List.filterMap_append]
    exact List.append_eq_nil_iff.mpr ⟨hp, hrest⟩

omit [Platform] in
theorem Unasked.catchWith {p : Action α} {g : JSError → Action α} (hp : Unasked p w)
    (hg : ∀ e, (g e).AtMost asked 0) : Unasked (p.catchWith g) w := by
  unfold Unasked
  rw [Prog.run_catchWith, Result.orElse]
  split
  · exact hp
  · next e _ =>
    rw [requests, List.filterMap_append]
    exact List.append_eq_nil_iff.mpr ⟨hp, unasked_of_atMost (hg e) _⟩

end PriceService

namespace CommandHandler

open PriceService (asked Unasked unasked_of_atMost)

/-- The paid check is due: an addition of a valid ticker which is not tracked and fits. -/
def Due (intent : CommandParser.Intent) (v : World) : Prop :=
  intent.type = .add ∧ Tickers.isValid (argValue intent.arg) = .ok true ∧
    ∃ ticker tickers, Tickers.normalize (argValue intent.arg) = .ok ticker ∧
      (Watchlist.tickers.run host v).outcome = .ok tickers ∧ ticker ∉ tickers ∧
      tickers.length < Watchlist.maxTickers

theorem atMost_addQuoted (ticker : JSString) (quotes : List PriceService.Quote) :
    (addQuoted ticker quotes).AtMost asked 0 :=
  PriceService.atMost_zero (F := replyFootprint fun _ => False) (within_addQuoted ticker quotes)
    fun _ h => h.elim

theorem atMost_addReply (rawArg : Option JSString) : (addReply rawArg).AtMost asked 1 := by
  unfold addReply
  refine Prog.AtMost.bind (m := 0) (n := 1) (PriceService.atMost_readOnly (Footprint.eval _)) fun valid => ?_
  split_ifs
  · trivial
  · refine Prog.AtMost.bind (m := 0) (n := 1) (PriceService.atMost_readOnly (Footprint.eval _)) fun ticker =>
      Prog.AtMost.bind (m := 0) (n := 1) (PriceService.atMost_readOnly (Watchlist.within_has trivial))
        fun known => ?_
    split_ifs
    · trivial
    · refine Prog.AtMost.bind (m := 0) (n := 1)
        (PriceService.atMost_readOnly (Watchlist.within_isFull trivial)) fun full => ?_
      split_ifs
      · trivial
      · exact (PriceService.atMost_quotesFor_one ticker).bind (atMost_addQuoted ticker)

theorem atMost_send (text : JSString) : (SmsService.send text).AtMost asked 0 :=
  PriceService.atMost_zero (F := ⟨fun _ => True, fun _ => False, SmsService.Carries text⟩)
    (SmsService.within_send (fun _ _ => trivial) fun _ h => h)
    fun _ h => PriceService.not_asks_of_carries h

theorem atMost_reply_of_ne {intent : CommandParser.Intent} (h : intent.type ≠ .add) :
    (reply intent).AtMost asked 0 :=
  PriceService.atMost_zero (F := replyFootprint fun _ => False) (within_reply intent fun hadd => absurd hadd h)
    fun _ hr => hr.elim

theorem reply_add {intent : CommandParser.Intent} (h : intent.type = .add) :
    reply intent = addReply intent.arg := by
  rw [reply, h]

theorem atMost_reply (intent : CommandParser.Intent) : (reply intent).AtMost asked 1 := by
  by_cases hadd : intent.type = .add
  · rw [reply_add hadd]
    exact atMost_addReply _
  · exact (atMost_reply_of_ne hadd).mono (Nat.zero_le _)

theorem unasked_addReply {arg : Option JSString} {v : World} {a : Watchlist.Tracked}
    (ha : Watchlist.Represents a (Watchlist.stored v.store))
    (h : ∀ ticker, Tickers.isValid (argValue arg) = .ok true →
      Tickers.normalize (argValue arg) = .ok ticker → ticker ∉ a.tickers →
        Watchlist.maxTickers ≤ a.tickers.length) : Unasked (addReply arg) v := by
  have hread {α : Type} {p : Action α} (hp : p.Within Footprint.readOnly.allows) (u : World) :
      Unasked p u := unasked_of_atMost (PriceService.atMost_readOnly hp) u
  have heval {α : Type} {x : Except Fault α} {y : α} {u : World}
      (hx : (eval x).exec host v = (.ok y, u)) : x = .ok y ∧ u = v := by
    rw [exec_eval] at hx
    cases x with
    | error f => cases hx
    | ok z =>
      cases hx
      exact ⟨rfl, rfl⟩
  unfold addReply
  refine (hread (Footprint.eval _) v).bind fun valid v₁ hvalid => ?_
  obtain ⟨hv, rfl⟩ := heval hvalid
  split_ifs with hinvalid
  · rfl
  · obtain rfl : valid = true := by simpa using hinvalid
    obtain ⟨ticker, hn, hc⟩ := canonical_of_valid hv
    refine (hread (Footprint.eval _) v₁).bind fun t v₂ ht => ?_
    rw [hn, exec_eval_ok] at ht
    cases ht
    refine (hread (Watchlist.within_has trivial) _).bind fun known v₃ hknown => ?_
    rw [exec_has hc ha] at hknown
    cases hknown
    split_ifs with hmem
    · rfl
    · refine (hread (Watchlist.within_isFull trivial) _).bind fun full v₄ hfull => ?_
      rw [exec_isFull ha] at hfull
      cases hfull
      rw [if_pos (decide_eq_true (h ticker hv hn (by simpa using hmem)))]
      rfl

theorem due_of_asked {intent : CommandParser.Intent} {v : World} {a : Watchlist.Tracked}
    (ha : Watchlist.Represents a (Watchlist.stored v.store)) (h : ¬ Unasked (reply intent) v) :
    Due intent v := by
  by_cases hadd : intent.type = .add
  · by_contra hdue
    rw [reply_add hadd] at h
    refine h (unasked_addReply ha fun ticker hvalid hn hnew => ?_)
    by_contra hroom
    refine hdue ⟨hadd, hvalid, ticker, a.tickers, hn, ?_, hnew, by omega⟩
    exact congrArg Prod.fst (exec_tickers_tracked ha)
  · exact absurd (unasked_of_atMost (atMost_reply_of_ne hadd) v) h

theorem atMost_doPost (e : Option WebhookEvent) : (doPost e).AtMost asked 1 := by
  have hread {α : Type} {p : Action α} (hp : p.Within Footprint.readOnly.allows) : p.AtMost asked 0 :=
    PriceService.atMost_readOnly hp
  have hgate : (SecurityGate.authorize e).AtMost asked 0 :=
    PriceService.atMost_zero (SecurityGate.within_authorize e) fun _ h => h.elim
  refine Prog.AtMost.catchWith (m := 1) (n := 0) ?_ fun err =>
    hread ((Footprint.console _ _).bind fun _ => trivial)
  refine hgate.bind (n := 1) fun auth => ?_
  split_ifs
  · exact Prog.AtMost.bind (m := 0) (n := 1) (atMost_send _) fun _ => trivial
  · trivial
  · refine Prog.AtMost.bind (m := 1) (n := 0) ?_ fun _ => trivial
    rw [answer_eq]
    exact Prog.AtMost.bind (m := 0) (n := 1) (hread (Footprint.validate fun _ _ => trivial)) fun _ =>
      (atMost_reply _).bind (n := 0) fun r => (hread (Footprint.eval _)).bind (n := 0) fun text =>
        Prog.AtMost.bind (m := 0) (n := 0) (atMost_send text) fun _ => trivial

theorem unasked_doPost {e : Option WebhookEvent} {w : World}
    (h : Unasked (reply (CommandParser.parse (bodyOf e)))
      ((SecurityGate.authorize e).run host w).state) : Unasked (doPost e) w := by
  have hread {α : Type} {p : Action α} (hp : p.Within Footprint.readOnly.allows) (u : World) :
      Unasked p u := unasked_of_atMost (PriceService.atMost_readOnly hp) u
  have hgate : (SecurityGate.authorize e).AtMost asked 0 :=
    PriceService.atMost_zero (SecurityGate.within_authorize e) fun _ h => h.elim
  have hsend (text : JSString) (u : World) : Unasked (SmsService.send text) u :=
    unasked_of_atMost (atMost_send text) u
  refine Unasked.catchWith ?_ fun err =>
    PriceService.atMost_readOnly ((Footprint.console _ _).bind fun _ => trivial)
  refine (unasked_of_atMost hgate w).bind fun auth v hv => ?_
  obtain rfl : ((SecurityGate.authorize e).run host w).state = v := congrArg Prod.snd hv
  split_ifs
  · exact (hsend _ _).bind fun _ _ _ => rfl
  · rfl
  · refine Unasked.bind ?_ fun _ _ _ => rfl
    rw [answer_eq]
    refine (hread (Footprint.validate fun _ _ => trivial) _).bind fun _ u hu => ?_
    obtain rfl : ((SecurityGate.authorize e).run host w).state = u := by
      rw [Prog.exec_of_run host (run_validate _ _)] at hu
      exact congrArg Prod.snd hu
    exact h.bind fun r _ _ => (hread (Footprint.eval _) _).bind fun text _ _ =>
      (hsend text _).bind fun _ _ _ => rfl

/-! ## The whole request -/

theorem outcome_doPost (e : Option WebhookEvent) (w : World) :
    ((doPost e).run host w).outcome = .ok emptyOk := by
  have hret : (Prog.ret emptyOk : Action JSString).Triple host (fun _ => True)
      (fun a _ => a = emptyOk) fun _ => True := .ret fun _ _ => rfl
  have hhandle : (handle e).Triple host (fun _ => True) (fun a _ => a = emptyOk) fun _ => True := by
    refine (Prog.Triple.any (SecurityGate.authorize e)).bind fun auth => ?_
    split_ifs
    · exact (Prog.Triple.any (SmsService.send Replies.sealedNotice)).bind fun _ => hret
    · exact hret
    · exact (Prog.Triple.any (answer e)).bind fun _ => hret
  change (((handle e).catchWith _).run host w).outcome = _
  rw [Prog.run_catchWith, Result.orElse]
  cases hout : ((handle e).run host w).outcome with
  | ok a => exact hout.trans (congrArg Except.ok ((hhandle w trivial).1 a hout))
  | error err => rfl

theorem calls_of_refused {e : Option WebhookEvent} {w v : World} {d : SecurityGate.Decision}
    (hd : d.allowed = false) (hgate : (SecurityGate.authorize e).exec host w = (.ok d, v)) :
    if d.justSealed then Prog.CallsOnce host (doPostWith e) w Replies.sealedNotice v emptyOk
    else ∃ r, Prog.CallsNever host (doPostWith e) w r := by
  cases hj : d.justSealed with
  | true =>
    refine Prog.CallsOnce.catchWith (Prog.CallsOnce.after hgate ?_) _
    rw [hd, hj]
    exact .call _ _ _
  | false =>
    refine ⟨_, Prog.CallsNever.catchWith (Prog.CallsNever.after
      (r := (Prog.ret emptyOk : Action JSString).run host v) hgate ?_) _⟩
    rw [hd, hj]
    exact .const _ _

theorem calls_of_allowed {e : Option WebhookEvent} {w : World} {a : Watchlist.Tracked}
    (h : Allowed e w) (hc : Configured w.store) (hw : w.env.Writes) (haudit : Audited w.store)
    (ha : Watchlist.Represents a (Watchlist.stored w.store)) :
    ∃ text t, Prog.CallsOnce host (doPostWith e) w text t emptyOk := by
  have hframe (k : Key) (hk : k ∉ SecurityGate.securityKeys) :
      ((SecurityGate.authorize e).run host w).state.store k = w.store k :=
    Footprint.unchanged (SecurityGate.within_authorize e) hk w
  have hstored : Watchlist.stored ((SecurityGate.authorize e).run host w).state.store =
      Watchlist.stored w.store := Prod.ext (hframe _ (by decide)) (hframe _ (by decide))
  have hconf : Configured ((SecurityGate.authorize e).run host w).state.store :=
    hc.of_frame (by decide) hframe
  have haudit' := (SecurityGate.maintains_authorize e).state haudit
  have hkey := hconf .alphaVantageKey (by decide)
  rw [← hstored] at ha
  obtain ⟨r, t, hr⟩ := reply_succeeds (CommandParser.parse (bodyOf e)) ha (writes_run _ hw) hkey
  obtain ⟨a', -, htrue⟩ := tells_reply ha hkey (SecurityGate.unsealed_of_allowed h) hr
  obtain ⟨text, htext⟩ := reply_text haudit' htrue hr
  exact ⟨text, t, callsOnce_reply h hconf hr htext⟩

/-- **One reply, at most one paid call.** -/
theorem one_reply (h₀ : Installed s₀) (hs : Reachable Env.Writes s₀ s) (e : Option WebhookEvent)
    (env : Env) (hw : env.Writes) :
    let w : World := ⟨s, env⟩
    let r := (doPost e).run host w
    let seals := s.isSealed = false ∧ r.state.store.isSealed = true
    r.outcome = .ok emptyOk ∧
    (Allowed e w → ∃ text t, Prog.CallsOnce host (doPostWith e) w text t emptyOk) ∧
    (¬ Allowed e w → seals → ∃ t, Prog.CallsOnce host (doPostWith e) w Replies.sealedNotice t emptyOk) ∧
    (¬ Allowed e w → ¬ seals → ∃ x, Prog.CallsNever host (doPostWith e) w x) ∧
    (PriceService.requests r.performed).length ≤ 1 ∧
    (PriceService.requests r.performed ≠ [] → Allowed e w ∧
      Due (CommandParser.parse (bodyOf e)) ((SecurityGate.authorize e).run host w).state) := by
  intro w r seals
  have hsound := hs.sound h₀
  have hconf := hsound.configured h₀.configured
  obtain ⟨-, d, hd, hjust⟩ := (hs.vaulted h₀).authorize (w := w) hconf hw e
  have hgate : (SecurityGate.authorize e).exec host w =
      (.ok d, ((SecurityGate.authorize e).run host w).state) := Prod.ext hd rfl
  have hsealed : r.state.store.isSealed =
      ((SecurityGate.authorize e).run host w).state.store.isSealed :=
    congrArg (fun x => decide (x = some (js "true"))) (doPost_security e w .secSealed (by decide))
  have hrefused (h : ¬ Allowed e w) : d.allowed = false := by
    by_contra ha
    exact h ⟨d, hd, by simpa using ha⟩
  have hcalls (h : ¬ Allowed e w) := calls_of_refused (hrefused h) hgate
  rw [← hsealed] at hjust
  refine ⟨outcome_doPost e w, fun h => ?_, fun h hs' => ?_, fun h hs' => ?_, ?_, fun h => ?_⟩
  · obtain ⟨a, ha⟩ := hsound.stored
    exact calls_of_allowed h hconf hw hsound.audited ha
  · have hcall := hcalls h
    rw [if_pos (hjust.mpr hs')] at hcall
    exact ⟨_, hcall⟩
  · have hcall := hcalls h
    rwa [if_neg (mt hjust.mp hs')] at hcall
  · rw [PriceService.length_requests]
    exact (atMost_doPost e).countP_le host w
  · have hallowed : Allowed e w := by
      by_contra hno
      exact h (no_requests_of_notice (doPost_refused_frame hno).2).1
    obtain ⟨a, ha⟩ := hsound.stored
    have hframe (k : Key) (hk : k ∉ SecurityGate.securityKeys) :=
      Footprint.unchanged (SecurityGate.within_authorize e) hk w
    have hstored : Watchlist.stored ((SecurityGate.authorize e).run host w).state.store =
        Watchlist.stored s := Prod.ext (hframe _ (by decide)) (hframe _ (by decide))
    exact ⟨hallowed, due_of_asked (by rwa [hstored]) (mt unasked_doPost h)⟩

end CommandHandler
end Runs

section
open AppsScript

theorem CommandHandler.one_reply_pause :
    (∃ text t, Script.Prog.CallsOnce host (doPostWith pauseRequest) ⟨sampleStore, sampleEnv⟩ text t
      emptyOk) ∧
    (PriceService.requests ((doPost pauseRequest).run host
      ⟨sampleStore, sampleEnv⟩).performed).length ≤ 1 := by
  have hone := one_reply installed_sampleStore .start pauseRequest sampleEnv fun _ => rfl
  exact ⟨hone.2.1 allowed_pauseRequest, hone.2.2.2.2.1⟩

end
end Spazito
