import Spazito.PriceLine
import Spazito.ScriptCalls
import Spazito.ShellFootprints

set_option autoImplicit false

/-!
# The calls of a price run

Which requests a run makes, in what order and how far apart, and which answer each quote is from.
-/
namespace Spazito.PriceService
open Ecma Script

/-- The requests and the waits of a run. -/
def isPaced : Cmd GAS → Bool
  | .op (.fetch _) | .op (.sleep _) => true
  | _ => false

def paced (t : Trace) : Trace := t.filter isPaced

def request (u : JSString) : Request := ⟨.get, u, [], []⟩

def fetches (u : JSString → JSString) (tickers : List JSString) : Trace :=
  tickers.map fun t => .op (.fetch (request (u t)))

def pause : Cmd GAS := .op (.sleep minCallSpacingMs)

def answered (u : JSString → JSString) (tickers : List JSString) (env : Env) : List Quote :=
  tickers.mapIdx fun i t => quoteOf t (env.fetch i (request (u t)))

def callsUntil (quotes : List Quote) : ℕ :=
  min (quotes.findIdx Quote.isRateLimited + 1) quotes.length

def IsEntry (v : Value) : Prop :=
  (Formatter.field v (js "ok") = .bool true ∧ (∃ price, Formatter.field v (js "price") = .str price) ∧
    Value.hasProperty (js "reason") v = .ok false) ∨
  (Formatter.field v (js "ok") = .bool false ∧ Formatter.field v (js "price") = .null ∧
    ∃ reason : Reason, Formatter.field v (js "reason") = .str reason.text)

theorem isEntry_toValue (q : Quote) : IsEntry q.toValue := by
  unfold Quote.toValue
  cases q.result with
  | ok price => exact .inl ⟨rfl, ⟨price, rfl⟩, rfl⟩
  | error reason => exact .inr ⟨rfl, rfl, reason, rfl⟩

theorem exists_url {ticker apiKey : JSString} (ht : WellFormed ticker) (hk : WellFormed apiKey) :
    ∃ u, url ticker apiKey = .ok u := by
  obtain ⟨symbol, hsymbol⟩ := exists_encodeURIComponent ht
  obtain ⟨key, hkey⟩ := exists_encodeURIComponent hk
  unfold url
  rw [hsymbol, hkey]
  exact ⟨_, rfl⟩

/-! ## Counting the calls -/

section Answers

variable {u : JSString → JSString} {apiKey : JSString}

theorem answered_cons (t : JSString) (rest : List JSString) (env : Env) :
    answered u (t :: rest) env =
      quoteOf t (env.fetch 0 (request (u t))) :: answered u rest env.afterFetch := by
  unfold answered
  rw [List.mapIdx_cons]
  rfl

theorem callsUntil_cons (q : Quote) (rest : List Quote) :
    callsUntil (q :: rest) = if q.isRateLimited then 1 else callsUntil rest + 1 := by
  unfold callsUntil
  rw [List.findIdx_cons, List.length_cons]
  cases q.isRateLimited with
  | true => simp
  | false => simp

theorem callsFrom_cons {t : JSString} (ht : url t apiKey = .ok (u t)) (rest : List JSString)
    (env : Env) : callsFrom apiKey (t :: rest) env =
      if (quoteOf t (env.fetch 0 (request (u t)))).isRateLimited then 1
      else callsFrom apiKey rest env.afterFetch + 1 := by
  rw [callsFrom, ht]
  rfl

theorem quotesFrom_cons {t : JSString} (ht : url t apiKey = .ok (u t)) (rest : List JSString)
    (env : Env) : quotesFrom apiKey (t :: rest) env =
      quoteOf t (env.fetch 0 (request (u t))) ::
        if (quoteOf t (env.fetch 0 (request (u t)))).isRateLimited then
          rest.map fun t => failure t .rateLimited
        else quotesFrom apiKey rest env.afterFetch := by
  rw [quotesFrom, ht, apply_ite (List.cons _)]
  rfl

theorem callsFrom_eq (tickers : List JSString) (hu : ∀ t ∈ tickers, url t apiKey = .ok (u t))
    (env : Env) : callsFrom apiKey tickers env = callsUntil (answered u tickers env) := by
  induction tickers generalizing env with
  | nil => rfl
  | cons t rest ih =>
    obtain ⟨ht, hrest⟩ := List.forall_mem_cons.mp hu
    rw [callsFrom_cons ht, answered_cons, callsUntil_cons, ih hrest]

theorem quotesFrom_eq (tickers : List JSString) (hu : ∀ t ∈ tickers, url t apiKey = .ok (u t))
    (env : Env) : quotesFrom apiKey tickers env =
      (answered u tickers env).take (callsFrom apiKey tickers env) ++
        (tickers.drop (callsFrom apiKey tickers env)).map fun t => failure t .rateLimited := by
  induction tickers generalizing env with
  | nil => rfl
  | cons t rest ih =>
    obtain ⟨ht, hrest⟩ := List.forall_mem_cons.mp hu
    rw [quotesFrom_cons ht, callsFrom_cons ht, answered_cons]
    split_ifs with hlimited
    · rfl
    · rw [ih hrest, List.take_succ_cons, List.drop_succ_cons, List.cons_append]

end Answers

theorem intersperse_cons {α : Type} (sep a : α) (rest : List α) :
    List.intersperse sep (a :: rest) = a :: rest.flatMap fun b => [sep, b] := by
  induction rest generalizing a with
  | nil => rfl
  | cons b rest ih =>
    rw [List.intersperse_cons_cons, ih, List.flatMap_cons]
    rfl

/-! ## The trace -/

theorem paced_append (t t' : Trace) : paced (t ++ t') = paced t ++ paced t' := List.filter_append ..

theorem paced_of_within {α : Type} {p : Action α} (hp : p.Within fun c => isPaced c = false)
    (w : World) : paced (p.run host w).performed = [] := by
  unfold paced
  rw [List.filter_eq_nil_iff]
  intro c hc
  rw [hp.performed w c hc]
  exact Bool.false_ne_true

theorem paced_bind {α β : Type} {p : Action α} {f : α → Action β} {a : α} {v : World} (w : World)
    (hp : p.exec host w = (.ok a, v)) : paced ((p.bind f).run host w).performed =
      paced (p.run host w).performed ++ paced ((f a).run host v).performed := by
  rw [Prog.run_bind, Prog.run_of_exec hp, Result.andThen_ok]
  exact paced_append _ _

section Runs

variable [Platform] (w : World) {apiKey : JSString}

theorem paced_quote {ticker u : JSString} (hu : url ticker apiKey = .ok u) :
    paced ((quote ticker apiKey).run host w).performed = [.op (.fetch (request u))] := by
  have hsilent (level : Level) (text : JSString) :
      (console level text).Within fun c => isPaced c = false := ⟨rfl, fun _ => trivial⟩
  have hfetch : paced ((fetchQuote ticker apiKey).run host w).performed =
      [.op (.fetch (request u))] := by
    unfold fetchQuote
    rw [hu]
    change paced (((fetch (request u)).bind _).run host w).performed = _
    rw [Prog.run_bind, run_fetch]
    cases w.env.fetch 0 (request u) with
    | error e => rfl
    | ok response =>
      rw [Result.andThen_ok]
      dsimp only
      rw [paced_append, paced_of_within]
      · rfl
      · split_ifs
        · exact (hsilent _ _).bind fun _ => trivial
        · split
          · trivial
          · exact within_readBody (fun _ _ => rfl) ticker _
  unfold quote
  rw [Prog.tryCatch_eq, Prog.run_catchWith]
  unfold Result.orElse
  split
  · exact hfetch
  · dsimp only
    rw [paced_append, hfetch, paced_of_within]
    · rfl
    · exact (hsilent _ _).bind fun _ => trivial

theorem paced_quotesLoop {u : JSString → JSString} (tickers : List JSString) (first : Bool)
    (hu : ∀ t ∈ tickers, url t apiKey = .ok (u t)) :
    paced ((quotesLoop apiKey first tickers).run host w).performed =
      let made := fetches u (tickers.take (callsFrom apiKey tickers w.env))
      if first then List.intersperse pause made else made.flatMap fun c => [pause, c] := by
  induction tickers generalizing first w with
  | nil => cases first <;> rfl
  | cons t rest ih =>
    obtain ⟨ht, hrest⟩ := List.forall_mem_cons.mp hu
    have hspace : (spaceCalls first).exec host w = (.ok (), w) := by cases first <;> rfl
    have hwait : paced ((spaceCalls first).run host w).performed = if first then [] else [pause] := by
      cases first <;> rfl
    obtain ⟨more, htrace, hmade⟩ : ∃ more : List JSString,
        paced ((quotesLoop apiKey first (t :: rest)).run host w).performed =
          (if first then [] else [pause]) ++ .op (.fetch (request (u t))) ::
            (fetches u more).flatMap (fun c => [pause, c]) ∧
        (t :: rest).take (callsFrom apiKey (t :: rest) w.env) = t :: more := by
      rw [quotesLoop, Prog.bind_eq, paced_bind w hspace, hwait, Prog.bind_eq,
        paced_bind w (exec_quote w ht), paced_quote w ht, callsFrom_cons ht]
      simp only [List.append_cancel_left_eq, List.singleton_append, List.cons.injEq, true_and]
      change ∃ more, paced ((if (quoteOf t (w.env.fetch 0 (request (u t)))).isRateLimited = true then _
        else _ : Action _).run host _).performed = _ ∧ _
      split_ifs with hlimited
      · exact ⟨[], rfl, rfl⟩
      · obtain ⟨env, hexec, -⟩ := exec_quotesLoop ⟨w.store, w.env.afterFetch⟩ apiKey rest false
        refine ⟨rest.take (callsFrom apiKey rest w.env.afterFetch), ?_, rfl⟩
        rw [Prog.bind_eq, paced_bind _ hexec, ih _ false hrest]
        exact List.append_nil _
    rw [htrace, hmade]
    cases first with
    | true => exact (intersperse_cons ..).symm
    | false => rfl

/-- A run over the tickers: one quote for each of the first ten, from one call each in order, a wait
of 15 s between two calls, until an answer is a rate limit; the tickers after it are not asked for. -/
theorem quotesFor_exact (tickers : List JSString) (w : World)
    (htickers : ∀ t ∈ tickers, WellFormed t)
    (hkey : Config.isMissing (w.store .alphaVantageKey) = false)
    (hformed : WellFormed (w.store.secret .alphaVantageKey)) :
    ∃ (u : JSString → JSString) (quotes : List Quote),
      let asked := tickers.take 10
      let calls := callsUntil (answered u asked w.env)
      (∀ t ∈ asked, url t (w.store.secret .alphaVantageKey) = .ok (u t)) ∧
      ((quotesFor tickers).run host w).outcome = .ok quotes ∧
      quotes.map Quote.ticker = asked ∧
      quotes = (answered u asked w.env).take calls ++
        (asked.drop calls).map (fun t => failure t .rateLimited) ∧
      paced ((quotesFor tickers).run host w).performed =
        List.intersperse (.op (.sleep 15000)) (fetches u (asked.take calls)) ∧
      ∀ q ∈ quotes, IsEntry q.toValue := by
  set key := w.store.secret .alphaVantageKey with hkeyeq
  set asked := tickers.take maxTickersPerRun with hasked
  have hurl : ∀ t ∈ asked, url t key = .ok ((url t key).toOption.getD []) := by
    intro t ht
    obtain ⟨u, hu⟩ := exists_url (htickers t (List.mem_of_mem_take ht)) hformed
    rw [hu]
    rfl
  set u : JSString → JSString := fun t => (url t key).toOption.getD [] with hudef
  obtain ⟨env, hexec, -⟩ := exec_quotesLoop w key asked true
  have htrace := paced_quotesLoop w asked true hurl
  rw [callsFrom_eq asked hurl] at htrace
  have hrun : ((quotesFor tickers).run host w).outcome = .ok (quotesFrom key asked w.env) ∧
      paced ((quotesFor tickers).run host w).performed =
        List.intersperse pause (fetches u (asked.take (callsUntil (answered u asked w.env)))) := by
    unfold quotesFor
    by_cases hempty : tickers = []
    · rw [if_pos hempty, hasked, hempty]
      exact ⟨rfl, rfl⟩
    · have hwarn := exec_consoleIf w (maxTickersPerRun < tickers.length) .error
        (js "quotesFor was given " ++ decimal tickers.length ++ js " tickers — clamping to " ++
          decimal maxTickersPerRun ++ js " (ADR 007 budget). This indicates a bug upstream.")
      rw [if_neg hempty]
      constructor
      · refine congrArg Prod.fst (?_ : Prog.exec host _ w = (_, ⟨w.store, env⟩))
        rw [Prog.bind_eq, Prog.exec_bind_ok host hwarn, Prog.bind_eq,
          Prog.exec_bind_ok host (exec_require w _ hkey), hexec]
      · have hmute : paced ((consoleIf (maxTickersPerRun < tickers.length) .error
            (js "quotesFor was given " ++ decimal tickers.length ++ js " tickers — clamping to " ++
              decimal maxTickersPerRun ++ js " (ADR 007 budget). This indicates a bug upstream.")).run
                host w).performed = [] := by
          unfold consoleIf
          split_ifs <;> rfl
        rw [Prog.bind_eq, paced_bind w hwarn, Prog.bind_eq, paced_bind w (exec_require w _ hkey),
          hmute, run_require, htrace]
        rfl
  obtain ⟨hout, hpaced⟩ := hrun
  refine ⟨u, quotesFrom key asked w.env, hurl, hout, ?_, ?_, hpaced, fun q _ => isEntry_toValue q⟩
  · exact List.forall₂_eq_eq_eq ▸ List.forall₂_map_left_iff.mpr (forall₂_quotesFrom key asked w.env).flip
  · rw [quotesFrom_eq asked hurl, callsFrom_eq asked hurl]
    rfl

end Runs

section Sample
open AppsScript

def apology : JSString := js "\x7b\"Note\":\"5 calls per minute\"\x7d"

theorem quotesFor_exact_limited : ∃ quotes,
    ((quotesFor [js "SPY", js "IWM"]).run host (answering apology)).outcome = .ok quotes ∧
      quotes.map Quote.ticker = [js "SPY", js "IWM"] := by
  obtain ⟨u, quotes, -, hout, htickers, -⟩ := quotesFor_exact [js "SPY", js "IWM"]
    (answering apology) (by unfold WellFormed; decide) (by decide) (by unfold WellFormed; decide)
  exact ⟨quotes, hout, htickers⟩

end Sample

end Spazito.PriceService
