import Spazito.PlatformRuns
import Spazito.PriceService

set_option autoImplicit false

/-!
# Runs of the price source

What a response comes to, as a function of the response alone, and the loop over the tickers.
-/
namespace Spazito.PriceService
open Ecma Script

/-- The quote that a body of status 200 comes to, or the exception it causes. -/
def reading (ticker : JSString) (body : Value) : Except Fault Quote := do
  match ← firstKey body rateLimitKeys with
  | some _ => return failure ticker .rateLimited
  | none =>
    if ← Value.hasProperty errorMessageKey body then
      let _ ← (do Redactor.scrub (← Value.property body errorMessageKey))
      return failure ticker .apiError
    else
      let quote ← Value.property body quoteField
      let price ← priceOf quote
      if !price.truthy then return failure ticker .noQuote
      else if !(← Value.toNumber price).isFinite then return failure ticker .badPrice
      else
        let _ ← (do Value.toText (← Value.property quote tradingDayField))
        return ⟨ticker, .ok (← Value.toText price)⟩

def quoteOf (ticker : JSString) : Except JSError Response → Quote
  | .error _ => failure ticker .fetchError
  | .ok response =>
    if response.code ≠ 200 then failure ticker .fetchError
    else match Value.parse response.body with
      | none => failure ticker .fetchError
      | some body =>
        match reading ticker body with
        | .ok q => q
        | .error _ => failure ticker .fetchError

theorem firstKey_some {body : Value} {keys : List JSString} {key : JSString}
    (h : firstKey body keys = .ok (some key)) : key ∈ keys ∧ Value.hasProperty key body = .ok true := by
  induction keys with
  | nil => cases h
  | cons k keys ih =>
    unfold firstKey at h
    obtain ⟨hit, hhit, h⟩ := bind_eq_ok.mp h
    cases hit with
    | true =>
      obtain rfl : k = key := by injection h with h; injection h
      exact ⟨by simp, hhit⟩
    | false =>
      obtain ⟨hmem, hkey⟩ := ih h
      exact ⟨by simp [hmem], hkey⟩

theorem reading_cases {ticker : JSString} {body : Value} {q : Quote}
    (h : reading ticker body = .ok q) :
    (q = failure ticker .rateLimited ∧
      ∃ key ∈ rateLimitKeys, Value.hasProperty key body = .ok true) ∨
    (∃ reason, reason ≠ .rateLimited ∧ q = failure ticker reason) ∨
    ∃ quote price text, Value.property body quoteField = .ok quote ∧
      Value.property quote priceField = .ok price ∧ Value.toText price = .ok text ∧
      q = ⟨ticker, .ok text⟩ := by
  unfold reading at h
  obtain ⟨key, hkey, h⟩ := bind_eq_ok.mp h
  cases key with
  | some key => exact .inl ⟨(Except.ok.inj h).symm, key, firstKey_some hkey⟩
  | none =>
    refine .inr ?_
    obtain ⟨rejected, -, h⟩ := bind_eq_ok.mp h
    cases rejected with
    | true =>
      obtain ⟨message, -, h⟩ := bind_eq_ok.mp h
      exact .inl ⟨.apiError, by decide, (Except.ok.inj h).symm⟩
    | false =>
      obtain ⟨quote, hquote, h⟩ := bind_eq_ok.mp h
      obtain ⟨price, hprice, h⟩ := bind_eq_ok.mp h
      split_ifs at h with hfalsy
      · exact .inl ⟨.noQuote, by decide, (Except.ok.inj h).symm⟩
      · obtain ⟨x, -, h⟩ := bind_eq_ok.mp h
        split_ifs at h
        · exact .inl ⟨.badPrice, by decide, (Except.ok.inj h).symm⟩
        · obtain ⟨day, -, h⟩ := bind_eq_ok.mp h
          obtain ⟨text, htext, h⟩ := bind_eq_ok.mp h
          have hin : Value.property quote priceField = .ok price := by
            unfold priceOf at hprice
            split_ifs at hprice with ht
            · exact hprice
            · obtain rfl := Except.ok.inj hprice
              simp [ht] at hfalsy
          exact .inr ⟨quote, price, text, hquote, hin, htext, (Except.ok.inj h).symm⟩

theorem quoteOf_cases (ticker : JSString) (answer : Except JSError Response) :
    quoteOf ticker answer = failure ticker .fetchError ∨
      ∃ text body, answer = .ok ⟨200, text⟩ ∧ Value.parse text = some body ∧
        reading ticker body = .ok (quoteOf ticker answer) := by
  cases answer with
  | error e => exact .inl rfl
  | ok response =>
    unfold quoteOf
    dsimp only
    by_cases hcode : response.code ≠ 200
    · exact .inl (if_pos hcode)
    · rw [if_neg hcode]
      cases hbody : Value.parse response.body with
      | none => exact .inl rfl
      | some body =>
        cases hread : reading ticker body with
        | error f => exact .inl (by simp only [hread])
        | ok q =>
          simp only [hread]
          refine .inr ⟨response.body, body, ?_, hbody, hread⟩
          rw [← not_not.mp hcode]

theorem quoteOf_ticker (ticker : JSString) (answer : Except JSError Response) :
    (quoteOf ticker answer).ticker = ticker := by
  rcases quoteOf_cases ticker answer with h | ⟨text, body, -, -, hread⟩
  · rw [h]
    rfl
  · rcases reading_cases hread with ⟨h, -⟩ | ⟨reason, -, h⟩ | ⟨_, _, _, -, -, -, h⟩ <;> rw [h] <;> rfl

/-- A reply of status 200 that apologizes for the rate. -/
def RateLimitReply (answer : Except JSError Response) : Prop :=
  ∃ text body, answer = .ok ⟨200, text⟩ ∧ Value.parse text = some body ∧
    ∃ key ∈ rateLimitKeys, Value.hasProperty key body = .ok true

theorem rateLimitReply_of_quoteOf {ticker : JSString} {answer : Except JSError Response}
    (h : (quoteOf ticker answer).isRateLimited = true) : RateLimitReply answer := by
  rcases quoteOf_cases ticker answer with hq | ⟨text, body, htext, hbody, hread⟩
  · rw [hq] at h
    cases h
  · refine ⟨text, body, htext, hbody, ?_⟩
    rcases reading_cases hread with ⟨-, hkey⟩ | ⟨reason, hne, hq⟩ | ⟨_, _, _, -, -, -, hq⟩
    · exact hkey
    · rw [hq] at h
      cases reason <;> first | exact absurd rfl hne | cases h
    · rw [hq] at h
      cases h

/-! ## One call -/

variable [Platform] (w : World)

theorem computes_readBody (ticker : JSString) (body : Value) :
    Computes (readBody ticker body) (reading ticker body) := by
  refine (Computes.eval _).bind fun key => ?_
  cases key with
  | some key => exact .afterConsole _ _ (.ret _)
  | none =>
    refine (Computes.eval _).bind fun rejected => ?_
    cases rejected with
    | true => exact (Computes.eval _).bind fun message => .afterConsole _ _ (.ret _)
    | false =>
      refine (Computes.eval _).bind fun quote => (Computes.eval _).bind fun price => ?_
      split_ifs
      · exact .afterConsole _ _ (.ret _)
      · refine (Computes.eval _).bind fun number => ?_
        split_ifs
        · exact .afterConsole _ _ (.ret _)
        · refine (Computes.eval _).bind fun day => .afterConsole _ _ ?_
          exact (Computes.eval _).bind fun text => .ret _

theorem exec_quote {ticker apiKey u : JSString} (hu : url ticker apiKey = .ok u) :
    (quote ticker apiKey).exec host w =
      (.ok (quoteOf ticker (w.env.fetch 0 ⟨.get, u, [], []⟩)), ⟨w.store, w.env.afterFetch⟩) := by
  unfold quote fetchQuote
  simp only [Prog.tryCatch_eq, Prog.exec_catchWith, Prog.bind_eq, Prog.exec_bind, hu, exec_eval_ok,
    Prog.next_ok, exec_fetch]
  cases w.env.fetch 0 ⟨.get, u, [], []⟩ with
  | error e => rfl
  | ok response =>
    rw [Prog.next_ok, quoteOf]
    by_cases hcode : response.code ≠ 200
    · rw [if_pos hcode, if_pos hcode]
      rfl
    · rw [if_neg hcode, if_neg hcode]
      cases Value.parse response.body with
      | none => rfl
      | some body =>
        dsimp only
        rw [computes_readBody ticker body]
        cases reading ticker body <;> rfl

theorem outcome_quote {ticker apiKey u : JSString} {answer : Except JSError Response}
    (hu : url ticker apiKey = .ok u) (hanswer : w.env.fetch 0 ⟨.get, u, [], []⟩ = answer) :
    ((quote ticker apiKey).run host w).outcome = .ok (quoteOf ticker answer) := by
  rw [← hanswer]
  exact congrArg Prod.fst (exec_quote w hu)

theorem exec_quote_error {ticker apiKey : JSString} {f : Fault} (hu : url ticker apiKey = .error f) :
    (quote ticker apiKey).exec host w = (.ok (failure ticker .fetchError), w) := by
  unfold quote fetchQuote
  simp only [Prog.tryCatch_eq, Prog.exec_catchWith, Prog.bind_eq, Prog.exec_bind, hu, exec_eval]
  rfl

/-! ## The loop -/

def quotesFrom (apiKey : JSString) : List JSString → Env → List Quote
  | [], _ => []
  | ticker :: rest, env =>
    match url ticker apiKey with
    | .error _ => failure ticker .fetchError :: quotesFrom apiKey rest env
    | .ok u =>
      let q := quoteOf ticker (env.fetch 0 ⟨.get, u, [], []⟩)
      if q.isRateLimited then q :: rest.map fun t => failure t .rateLimited
      else q :: quotesFrom apiKey rest env.afterFetch

def callsFrom (apiKey : JSString) : List JSString → Env → ℕ
  | [], _ => 0
  | ticker :: rest, env =>
    match url ticker apiKey with
    | .error _ => callsFrom apiKey rest env
    | .ok u =>
      if (quoteOf ticker (env.fetch 0 ⟨.get, u, [], []⟩)).isRateLimited then 1
      else callsFrom apiKey rest env.afterFetch + 1

/-- The world after `n` requests. -/
structure AfterCalls (n : ℕ) (env env' : Env) : Prop where
  lock : env'.lock = env.lock
  write : env'.write = env.write
  clock : env'.clock = env.clock
  fetch : ∀ i, env'.fetch i = env.fetch (i + n)

omit [Platform] in
theorem AfterCalls.zero (env : Env) : AfterCalls 0 env env := ⟨rfl, rfl, rfl, fun _ => rfl⟩

omit [Platform] in
theorem AfterCalls.succ {n : ℕ} {env env' : Env} (h : AfterCalls n env.afterFetch env') :
    AfterCalls (n + 1) env env' :=
  ⟨h.lock, h.write, h.clock, fun i => (h.fetch i).trans (by rw [Env.afterFetch_fetch, add_assoc])⟩

theorem exec_quotesLoop (apiKey : JSString) (tickers : List JSString) (first : Bool) :
    ∃ env, (quotesLoop apiKey first tickers).exec host w =
        (.ok (quotesFrom apiKey tickers w.env), ⟨w.store, env⟩) ∧
      AfterCalls (callsFrom apiKey tickers w.env) w.env env := by
  induction tickers generalizing first w with
  | nil => exact ⟨w.env, rfl, .zero _⟩
  | cons ticker rest ih =>
    have hspace : (spaceCalls first).exec host w = (.ok (), w) := by cases first <;> rfl
    simp only [quotesLoop, Prog.bind_eq, Prog.exec_bind, hspace, Prog.next_ok]
    unfold quotesFrom callsFrom
    cases hu : url ticker apiKey with
    | error f =>
      obtain ⟨env, hexec, henv⟩ := ih w false
      rw [exec_quote_error w hu, Prog.next_ok, if_neg (by simp [failure, Quote.isRateLimited]),
        Prog.exec_bind, hexec]
      exact ⟨env, rfl, henv⟩
    | ok u =>
      rw [exec_quote w hu, Prog.next_ok]
      dsimp only
      split_ifs with hlimited
      · exact ⟨w.env.afterFetch, rfl, (AfterCalls.zero _).succ⟩
      · obtain ⟨env, hexec, henv⟩ := ih ⟨w.store, w.env.afterFetch⟩ false
        rw [Prog.exec_bind, hexec]
        exact ⟨env, rfl, henv.succ⟩

theorem exec_quotesFor (tickers : List JSString) (hfew : tickers.length ≤ maxTickersPerRun)
    (hkey : Config.isMissing (w.store .alphaVantageKey) = false) :
    ∃ env, (quotesFor tickers).exec host w =
        (.ok (quotesFrom (w.store.secret .alphaVantageKey) tickers w.env), ⟨w.store, env⟩) ∧
      AfterCalls (callsFrom (w.store.secret .alphaVantageKey) tickers w.env) w.env env := by
  unfold quotesFor
  by_cases hempty : tickers = []
  · rw [if_pos hempty, hempty]
    exact ⟨w.env, rfl, .zero _⟩
  · obtain ⟨env, hexec, henv⟩ := exec_quotesLoop w (w.store.secret .alphaVantageKey) tickers true
    rw [if_neg hempty, List.take_of_length_le hfew]
    simp only [Prog.bind_eq, Prog.exec_bind, exec_consoleIf, Prog.next_ok, exec_require w _ hkey,
      hexec]
    exact ⟨env, rfl, henv⟩

/-! ## Which answer goes with which ticker -/

/-- The answer to a call for the ticker, as the `i`-th call; none if no URL can be built. -/
def answerTo (env : Env) (apiKey ticker : JSString) (i : ℕ) : Option (Except JSError Response) :=
  match url ticker apiKey with
  | .ok u => some (env.fetch i ⟨.get, u, [], []⟩)
  | .error _ => none

omit [Platform] in
theorem forall₂_quotesFrom (apiKey : JSString) (tickers : List JSString) (env : Env) :
    List.Forall₂ (fun t q => q.ticker = t) tickers (quotesFrom apiKey tickers env) := by
  induction tickers generalizing env with
  | nil => exact .nil
  | cons t rest ih =>
    unfold quotesFrom
    split
    · exact .cons rfl (ih env)
    · dsimp only
      split_ifs
      · refine .cons (quoteOf_ticker _ _) ?_
        exact List.forall₂_map_right_iff.mpr (List.forall₂_same.mpr fun _ _ => rfl)
      · exact .cons (quoteOf_ticker _ _) (ih _)

omit [Platform] in
theorem quotesFrom_get {apiKey : JSString} {tickers : List JSString} {env : Env} {k : ℕ}
    {t : JSString} {answer : Except JSError Response}
    (hurl : ∀ t ∈ tickers, ∃ u, url t apiKey = .ok u) (ht : tickers[k]? = some t)
    (hanswer : answerTo env apiKey t k = some answer)
    (hearlier : ∀ j < k, ∀ t' answer', tickers[j]? = some t' →
      answerTo env apiKey t' j = some answer' → ¬ RateLimitReply answer') :
    (quotesFrom apiKey tickers env)[k]? = some (quoteOf t answer) := by
  induction tickers generalizing env k with
  | nil => simp at ht
  | cons t' rest ih =>
    obtain ⟨u, hu⟩ := hurl t' (by simp)
    rw [quotesFrom, hu]
    dsimp only
    cases k with
    | zero =>
      obtain rfl : t' = t := by simpa using ht
      have hq : quoteOf t' (env.fetch 0 ⟨.get, u, [], []⟩) = quoteOf t' answer := by
        rw [answerTo, hu] at hanswer
        rw [Option.some.inj hanswer]
      split_ifs <;> simp [hq]
    | succ k =>
      have hgo := hearlier 0 k.succ_pos t' (env.fetch 0 ⟨.get, u, [], []⟩) rfl (by rw [answerTo, hu])
      rw [if_neg (mt rateLimitReply_of_quoteOf hgo), List.getElem?_cons_succ]
      refine ih (fun t ht => hurl t (by simp [ht])) (by simpa using ht) ?_ ?_
      · simpa [answerTo] using hanswer
      · intro j hj t'' answer' ht'' hanswer'
        refine hearlier (j + 1) (by omega) t'' answer' (by simpa using ht'') ?_
        simpa [answerTo] using hanswer'

end Spazito.PriceService
