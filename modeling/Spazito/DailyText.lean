import Spazito.PriceLine
import Spazito.ShellCalls
import Spazito.SignedText
import Spazito.WatchlistState

set_option autoImplicit false

/-!
# The daily text

One run of the alert, from the tracked tickers to the one text it sends.
-/
namespace Spazito
open Ecma Script

namespace PriceService

/-! ## Answers with a price -/

/-- A body of status 200 with a global quote whose price is the text `price`. -/
def Prices (answer : Except JSError Response) (price : JSString) : Prop :=
  ∃ text fields quote, answer = .ok ⟨200, text⟩ ∧ Value.parse text = some (.obj fields) ∧
    (∀ key ∈ errorMessageKey :: rateLimitKeys, Value.hasProperty key (.obj fields) = .ok false) ∧
    Value.lookup fields quoteField = .obj quote ∧ Value.lookup quote priceField = .str price ∧
    (Value.lookup quote tradingDayField = .undefined ∨
      ∃ day, Value.lookup quote tradingDayField = .str day)

theorem not_rateLimitReply {text : JSString} {body : Value} (hparse : Value.parse text = some body)
    (hkeys : ∀ key ∈ rateLimitKeys, Value.hasProperty key body = .ok false) :
    ¬ RateLimitReply (.ok ⟨200, text⟩) := by
  rintro ⟨text', body', htext, hbody, key, hkey, hhas⟩
  injection htext with htext
  injection htext with _ htext
  subst htext
  obtain rfl := Option.some.inj (hparse.symm.trans hbody)
  rw [hkeys key hkey] at hhas
  cases hhas

theorem quoteOf_prices {answer : Except JSError Response} {price : JSString} {v : ℚ}
    (h : Prices answer price) (ticker : JSString) (hdecimal : Formatter.IsDecimal (trim price))
    (hv : Number.ofText (trim price) = .finite v) : quoteOf ticker answer = ⟨ticker, .ok price⟩ := by
  obtain ⟨text, fields, quote, rfl, hparse, hkeys, hquote, hprice, hday⟩ := h
  have hfirst : firstKey (.obj fields) rateLimitKeys = .ok none := by
    have hnone : ∀ keys : List JSString, (∀ key ∈ keys, Value.hasProperty key (.obj fields) = .ok false) →
        firstKey (.obj fields) keys = .ok none := by
      intro keys hkeys
      induction keys with
      | nil => rfl
      | cons key keys ih =>
        rw [firstKey, hkeys key (by simp)]
        exact ih fun key hkey => hkeys key (by simp [hkey])
    exact hnone _ fun key hkey => hkeys key (by simp [hkey])
  have hnumber : Value.toNumber (.str price) = .ok (.finite v) := by
    have hsame : Number.ofText price = Number.ofText (trim price) := by
      unfold Number.ofText
      rw [trim_trim]
    rw [← hv, ← hsame]
    rfl
  have htruthy : price ≠ [] := by
    rintro rfl
    obtain ⟨sign, ip, fp, hs, -, ⟨hip, -⟩, -⟩ := hdecimal
    have hnil : sign ++ (ip ++ fp) = [] := hs.symm
    exact hip (List.append_eq_nil_iff.mp (List.append_eq_nil_iff.mp hnil).2).1
  have hdayText : ∃ day, Value.toText (Value.lookup quote tradingDayField) = .ok day := by
    rcases hday with h | ⟨day, h⟩ <;> rw [h] <;> exact ⟨_, rfl⟩
  obtain ⟨day, hdayText⟩ := hdayText
  have hread : reading ticker (.obj fields) = .ok ⟨ticker, .ok price⟩ := by
    unfold reading
    rw [hfirst, ok_bind, hkeys errorMessageKey (by simp)]
    have htext : Value.toText (.str price) = .ok price := rfl
    simp [Value.property, hquote, priceOf, hprice, Value.truthy, htruthy, hnumber, Number.isFinite,
      hdayText, htext]
  rw [quoteOf, if_neg (by simp)]
  simp only [hparse, hread]

theorem url_canonical {t t' apiKey : JSString} (ht' : Tickers.Canonical t')
    (h : ∃ u, url t apiKey = .ok u) : ∃ u, url t' apiKey = .ok u := by
  have hencode : encodeURIComponent t' = some t' := by
    refine encodeURIComponent_unreserved t' fun u hu => ?_
    have hunit := ht'.unit u hu
    refine ⟨(Tickers.isTickerUnit_plain hunit).1, ?_⟩
    simp only [Tickers.isTickerUnit, Tickers.isTickerHead, Bool.or_eq_true, beq_iff_eq] at hunit
    rcases hunit with ((hu | hu) | rfl) | rfl
    · simp [isUnreserved, hu]
    · simp [isUnreserved, hu]
    · decide
    · decide
  obtain ⟨u, hu⟩ := h
  unfold url at hu ⊢
  obtain ⟨_, -, hrest⟩ := bind_eq_ok.mp hu
  obtain ⟨key, hkey, -⟩ := bind_eq_ok.mp hrest
  rw [hencode, hkey]
  exact ⟨_, rfl⟩

end PriceService

namespace Signer

variable [Platform] (w : World)

/-- The block that `sign` adds to a payload, from what is stored. -/
def blockText (s : Store) (payload : JSString) : JSString :=
  let sequence := Number.add (SecurityVault.countOf (s .secMsgCount)) (.finite 1)
  js " [#" ++ sequence.toText ++ js " " ++
    tagOf (s.secret .verifierKey) (sequence.toText ++ js "|" ++ payload) ++ js "]"

theorem exec_tag (sequence : Number) (payload : JSString)
    (hkey : Config.isMissing (w.store .verifierKey) = false) :
    (tag sequence payload).exec host w =
      (.ok (tagOf (w.store.secret .verifierKey) (sequence.toText ++ js "|" ++ payload)), w) := by
  simp only [tag, Prog.bind_eq, Prog.exec_bind, exec_require w _ hkey, Prog.next_ok]
  rfl

theorem exec_sign_any (message : JSString) (hkey : Config.isMissing (w.store .verifierKey) = false)
    (hnumber : w.store.secret .debugMode = js "true" ∨ w.env.lock 0 = false ∨ w.env.write 0 = none) :
    ∃ v, (sign message).exec host w = (.ok (trim message ++
      if w.store.secret .debugMode = js "true" ∨ w.env.lock 0 = true
        then blockText w.store (trim message) else []), v) ∧ v.env.fetch = w.env.fetch := by
  have hdebug : Config.isDebugMode.exec host w =
      (.ok (decide (w.store.secret .debugMode = js "true")), w) :=
    Prog.exec_of_run host (run_isDebugMode w)
  unfold sign claim
  simp only [Prog.bind_eq, Prog.exec_bind, hdebug, Prog.next_ok]
  by_cases hd : w.store.secret .debugMode = js "true"
  · rw [decide_eq_true hd, if_pos rfl, if_pos (.inl hd)]
    simp only [Prog.exec_bind, SecurityVault.exec_currentSequence, Prog.next_ok, Prog.pure_eq,
      Prog.exec_ret, exec_tag w _ _ hkey]
    exact ⟨w, by simp [blockText], rfl⟩
  · rw [decide_eq_false hd, if_neg Bool.false_ne_true]
    simp only [SecurityVault.nextSequence, exec_withScriptLock, hd, false_or]
    cases hl : w.env.lock 0 with
    | false => exact ⟨⟨w.store, w.env.afterLock⟩, by simp; rfl, rfl⟩
    | true =>
      have hwrite : w.env.write 0 = none := (hnumber.resolve_left hd).resolve_left (by simp [hl])
      simp only [↓reduceIte, Prog.bind_eq, Prog.exec_bind, SecurityVault.exec_currentSequence,
        Prog.next_ok, Prog.pure_eq, Prog.exec_ret]
      rw [exec_setProperty ⟨w.store, w.env.afterLock⟩ _ _ hwrite]
      have hkept (text : JSString) : (w.store.set .secMsgCount text) .verifierKey =
          w.store .verifierKey := Store.set_ne _ _ (by decide)
      simp only [Prog.next_ok]
      set sequence := Number.add (SecurityVault.countOf (w.store .secMsgCount)) (.finite 1)
        with hsequence
      rw [Prog.exec_bind, exec_tag
        ⟨w.store.set .secMsgCount sequence.toText, w.env.afterLock.afterWrite⟩ _ _
        ((congrArg Config.isMissing (hkept sequence.toText)).trans hkey)]
      refine ⟨⟨w.store.set .secMsgCount sequence.toText, w.env.afterLock.afterWrite⟩,
        congrArg (fun text => (Except.ok text, _)) ?_, rfl⟩
      simp [blockText, Store.secret, ← hsequence]

end Signer

namespace Scheduler

variable [Platform]

def segmentOf (q : PriceService.Quote) : JSString :=
  PriceService.lineLabel q.ticker ++ js " " ++
    Formatter.shown (Formatter.display (toUpperCase (trim q.ticker)))
      (Formatter.field q.toValue (js "ok")) (Formatter.field q.toValue (js "price"))

omit [Platform] in
theorem segmentOf_trimmed {q : PriceService.Quote} (ht : Tickers.Canonical q.ticker) :
    segmentOf q ≠ [] ∧ trim (segmentOf q) = segmentOf q := by
  obtain ⟨hne, hhead⟩ := PriceService.lineLabel_canonical ht
  obtain ⟨hshown, hlast⟩ := Formatter.shown_end (Formatter.display (toUpperCase (trim q.ticker)))
    (Formatter.field q.toValue (js "ok")) (Formatter.field q.toValue (js "price"))
  refine ⟨by simp [segmentOf, hne], trim_eq_self (fun u hu => hhead u ?_) fun u hu => hlast u ?_⟩
  · rwa [segmentOf, List.append_assoc, List.head?_append_of_ne_nil _ hne] at hu
  · rwa [segmentOf, List.getLast?_append_of_ne_nil _ hshown] at hu

omit [Platform] in
theorem summaryLine_quotes {quotes : List PriceService.Quote}
    (ht : ∀ q ∈ quotes, Tickers.Canonical q.ticker) :
    Formatter.summaryLine (quotes.map PriceService.Quote.toValue) =
      .ok (if quotes = [] then Formatter.emptyWatchlistMessage
        else List.intercalate Formatter.separator (quotes.map segmentOf)) := by
  have hsegs : (quotes.map PriceService.Quote.toValue).mapM Formatter.segment =
      .ok (quotes.map segmentOf) := by
    rw [mapM_eq_ok, List.forall₂_map_left_iff, List.forall₂_map_right_iff, List.forall₂_same]
    exact fun q hq => PriceService.segment_toValue (ht q hq)
  unfold Formatter.summaryLine
  by_cases hempty : quotes = []
  · rw [if_pos (by simp [hempty]), if_pos hempty]
  · rw [if_neg (by simp [hempty]), if_neg hempty, hsegs]
    rfl

def payload (quotes : List PriceService.Quote) : JSString :=
  if quotes = [] then Formatter.emptyWatchlistMessage
  else List.intercalate Formatter.separator (quotes.map segmentOf)

omit [Platform] in
theorem payload_trimmed {quotes : List PriceService.Quote}
    (ht : ∀ q ∈ quotes, Tickers.Canonical q.ticker) : trim (payload quotes) = payload quotes := by
  unfold payload
  split_ifs
  · decide
  · refine trim_intercalate fun xs hxs => ?_
    obtain ⟨q, hq, rfl⟩ := List.mem_map.mp hxs
    exact segmentOf_trimmed (ht q hq)

omit [Platform] in
theorem canonical_quotes (apiKey : JSString) {tickers : List JSString} (env : Env)
    (h : ∀ t ∈ tickers, Tickers.Canonical t) :
    ∀ q ∈ PriceService.quotesFrom apiKey tickers env, Tickers.Canonical q.ticker := by
  have hall := PriceService.forall₂_quotesFrom apiKey tickers env
  intro q hq
  obtain ⟨i, hi, rfl⟩ := List.mem_iff_getElem.mp hq
  have hlt : i < tickers.length := by rwa [hall.length_eq]
  rw [show (PriceService.quotesFrom apiKey tickers env)[i].ticker = tickers[i] from hall.get hlt hi]
  exact h _ (List.getElem_mem hlt)

def textOf (w : World) (tickers : List JSString) : JSString :=
  let line := payload (PriceService.quotesFrom (w.store.secret .alphaVantageKey) tickers w.env)
  line ++ if w.store.secret .debugMode = js "true" ∨ w.env.lock 0 = true
    then Signer.blockText w.store line else []

def callsOf (w : World) (tickers : List JSString) : ℕ :=
  PriceService.callsFrom (w.store.secret .alphaVantageKey) tickers w.env

section Steps

variable {w : World}

omit [Platform] in
theorem exec_validateForAlert
    (hkeys : ∀ k ∈ Config.alertKeys, Config.isMissing (w.store k) = false) :
    Config.validateForAlert.exec host w = (.ok (), w) := by
  have hnone : Config.alertKeys.filter (fun k => Config.isMissing (w.store k)) = [] := by
    simpa [List.filter_eq_nil_iff] using hkeys
  rw [Config.validateForAlert, Prog.exec_of_run host (run_validate w _), if_pos hnone]

omit [Platform] in
theorem exec_isPaused (hpaused : w.store .paused ≠ some (js "true")) :
    Watchlist.isPaused.exec host w = (.ok false, w) := by
  simp [Watchlist.isPaused, Prog.exec_bind, hpaused]

theorem exec_tickers_ok {tickers : List JSString}
    (ht : Watchlist.tickersOf (w.store .watchlist) = .ok tickers) :
    Watchlist.tickers.exec host w = (.ok tickers, w) := by
  rw [Watchlist.exec_tickers, ht]
  rfl

end Steps

/-- An unpaused run with its keys calls `send` once, with the signed line over the quotes of the
tracked tickers, after the requests for the prices. -/
theorem runDailyAlert_callsOnce {w : World} {tickers : List JSString}
    (hkeys : ∀ k ∈ Config.alertKeys, Config.isMissing (w.store k) = false)
    (ht : Watchlist.tickersOf (w.store .watchlist) = .ok tickers)
    (hpaused : w.store .paused ≠ some (js "true"))
    (hnumber : w.store.secret .debugMode = js "true" ∨ w.env.lock 0 = false ∨ w.env.write 0 = none) :
    ∃ v, Prog.CallsOnce host runDailyAlertWith w (textOf w tickers) v () ∧
      ∀ i, v.env.fetch i = w.env.fetch (i + callsOf w tickers) := by
  obtain ⟨hcanonical, hfew⟩ := Watchlist.tickersOf_tracked ht
  set quotes := PriceService.quotesFrom (w.store.secret .alphaVantageKey) tickers w.env with hq
  have hcanonical := canonical_quotes (w.store.secret .alphaVantageKey) w.env hcanonical
  obtain ⟨env, hprices, henv⟩ := PriceService.exec_quotesFor w tickers hfew
    (hkeys _ (by decide))
  obtain ⟨v, hsign, hafter⟩ := Signer.exec_sign_any ⟨w.store, env⟩ (payload quotes)
    (hkeys _ (by decide)) (by rwa [henv.lock, henv.write])
  rw [payload_trimmed hcanonical, henv.lock] at hsign
  refine ⟨v, Prog.CallsOnce.catchWith ?_ _, fun i => ?_⟩
  · refine Prog.CallsOnce.after (exec_validateForAlert hkeys)
      (Prog.CallsOnce.after (exec_isPaused hpaused) ?_)
    refine Prog.CallsOnce.after (exec_tickers_ok ht) (Prog.CallsOnce.after hprices ?_)
    refine Prog.CallsOnce.after (exec_consoleIf _ _ _ _) ?_
    refine Prog.CallsOnce.after (x := payload quotes) (u := ⟨w.store, env⟩) ?_ ?_
    · rw [summaryLine_quotes hcanonical]
      rfl
    · exact Prog.CallsOnce.after hsign (Prog.CallsOnce.call _ _ _)
  · rw [hafter]
    exact henv.fetch i

/-- The daily run, end to end: one text, a segment for each tracked ticker in order, each with the
price of its own answer, and the block if a number could be had. -/
theorem runDailyAlert_sends (w : World) (a : Watchlist.Tracked)
    (hkeys : ∀ k ∈ Config.alertKeys, Config.isMissing (w.store k) = false)
    (ha : Watchlist.Represents a (Watchlist.stored w.store)) (hpaused : a.paused = false)
    (hwrite : w.env.write 0 = none) :
    runDailyAlert = runDailyAlertWith SmsService.send ∧ Prog.NeverThrows host SmsService.send ∧
    ∃ text line v, Prog.CallsOnce host runDailyAlertWith w text v () ∧
      text = line ++ (if w.store.secret .debugMode = js "true" ∨ w.env.lock 0 = true
        then Signer.blockText w.store line else []) ∧
      (a.tickers = [] → line = Formatter.emptyWatchlistMessage) ∧
      (a.tickers ≠ [] → ∃ segs, line = List.intercalate Formatter.separator segs ∧
        List.Forall₂ (fun t seg => ∃ rest, seg = PriceService.lineLabel t ++ js " " ++ rest)
          a.tickers segs ∧
        ∀ k t answer price x, a.tickers[k]? = some t →
          PriceService.answerTo w.env (w.store.secret .alphaVantageKey) t k = some answer →
          PriceService.Prices answer price → Formatter.IsDecimal (trim price) →
          Number.ofText (trim price) = .finite x → |x| < Formatter.maxFormattable →
          (∀ j < k, ∀ t' answer', a.tickers[j]? = some t' →
            PriceService.answerTo w.env (w.store.secret .alphaVantageKey) t' j = some answer' →
            ¬ PriceService.RateLimitReply answer') →
          segs[k]? = some (PriceService.lineLabel t ++ js " " ++
            Formatter.formatMoney (.finite x) (Formatter.display (toUpperCase (trim t))).decimals)) := by
  have hunpaused : w.store .paused ≠ some (js "true") := by
    intro h
    rw [ha.flag.mp h] at hpaused
    cases hpaused
  obtain ⟨v, hcall, -⟩ := runDailyAlert_callsOnce hkeys (Watchlist.tickersOf_represented ha)
    hunpaused (.inr (.inr hwrite))
  set apiKey := w.store.secret .alphaVantageKey
  have hall := PriceService.forall₂_quotesFrom apiKey a.tickers w.env
  have hempty : PriceService.quotesFrom apiKey a.tickers w.env = [] ↔ a.tickers = [] := by
    rw [← List.length_eq_zero_iff, ← hall.length_eq, List.length_eq_zero_iff]
  refine ⟨runDailyAlert_eq, SmsService.send_neverThrows, _,
    payload (PriceService.quotesFrom apiKey a.tickers w.env), v, hcall, rfl, fun hnone => ?_, fun hsome => ?_⟩
  · rw [payload, if_pos (hempty.mpr hnone)]
  · refine ⟨(PriceService.quotesFrom apiKey a.tickers w.env).map segmentOf, ?_, ?_, ?_⟩
    · rw [payload, if_neg (mt hempty.mp hsome)]
    · rw [List.forall₂_map_right_iff]
      refine hall.imp fun t q hq => ?_
      subst hq
      exact ⟨_, rfl⟩
    · intro k t answer price x ht hanswer hprices hdecimal hx hbound hearlier
      have hurl : ∀ t' ∈ a.tickers, ∃ u, PriceService.url t' apiKey = .ok u := by
        intro t' ht'
        refine PriceService.url_canonical (a.roster.admitted t' ht') (t := t) ?_
        unfold PriceService.answerTo at hanswer
        split at hanswer
        · next u hu => exact ⟨u, hu⟩
        · cases hanswer
      have hquote := PriceService.quotesFrom_get hurl ht hanswer hearlier
      rw [PriceService.quoteOf_prices hprices t hdecimal hx] at hquote
      rw [List.getElem?_map, hquote, Option.map_some]
      have hparse : Formatter.parsePrice (.str price) = .finite x := by
        rw [Formatter.parsePrice, if_pos ((Formatter.test_pricePattern _).mpr hdecimal), hx]
      exact congrArg (fun shown => some (PriceService.lineLabel t ++ js " " ++ shown))
        (Formatter.shown_money rfl hparse hbound)

end Scheduler

namespace Scheduler
open AppsScript

def quoteValue (fields : List (JSString × Value)) : Value := .obj [(PriceService.quoteField, .obj fields)]

def sampleFields : ℕ → List (JSString × Value)
  | 0 => [(PriceService.priceField, .str (js "7500.5"))]
  | 1 => []
  | _ => [(PriceService.priceField, .str (js "28.375"))]

def sampleFetch (i : ℕ) : Except JSError Response :=
  .ok ⟨200, (quoteValue (sampleFields i)).stringify⟩

theorem parse_sampleFetch : ∀ i, Value.parse (quoteValue (sampleFields i)).stringify =
    some (quoteValue (sampleFields i))
  | 0 => Value.parse_stringify _ ⟨⟨⟨⟨trivial, trivial⟩, rfl⟩, trivial⟩, rfl⟩
  | 1 => Value.parse_stringify _ ⟨⟨⟨trivial, rfl⟩, trivial⟩, rfl⟩
  | _ + 2 => Value.parse_stringify _ ⟨⟨⟨⟨trivial, trivial⟩, rfl⟩, trivial⟩, rfl⟩

def pricedEnv : Env := { sampleEnv with fetch := fun i _ => sampleFetch i }

theorem answerTo_pricedEnv {t : JSString} (ht : t ∈ Watchlist.Tracked.initial.tickers) (k : ℕ) :
    PriceService.answerTo pricedEnv (js "demo") t k = some (sampleFetch k) := by
  have hspy : PriceService.url (js "SPY") (js "demo") = .ok
      (js "https://www.alphavantage.co/query?function=GLOBAL_QUOTE&symbol=SPY&apikey=demo") := by
    decide +kernel
  obtain ⟨u, hu⟩ :=
    PriceService.url_canonical (Watchlist.Tracked.initial.roster.admitted t ht) ⟨_, hspy⟩
  rw [PriceService.answerTo, hu]
  rfl

/-- The first and the last slot show their prices; the second has none. -/
theorem runDailyAlert_sends_sample : ∃ text line v segs,
    Prog.CallsOnce host runDailyAlertWith ⟨sampleStore, pricedEnv⟩ text v () ∧
      text = line ++ Signer.blockText sampleStore line ∧
      line = List.intercalate Formatter.separator segs ∧ segs.length = 3 ∧
      segs[0]? = some (js "S&P 7,501") ∧ segs[2]? = some (js "Silver 28.38") := by
  obtain ⟨-, -, text, line, v, hcall, htext, -, hline⟩ := runDailyAlert_sends
    ⟨sampleStore, pricedEnv⟩ .initial (by decide) (Watchlist.represents_initial rfl rfl) rfl rfl
  obtain ⟨segs, hsegs, hall, hshown⟩ := hline (by decide)
  have hkeys (i : ℕ) : ∀ key ∈ PriceService.errorMessageKey :: PriceService.rateLimitKeys,
      Value.hasProperty key (quoteValue (sampleFields i)) = .ok false := by
    have hnone : ∀ key ∈ PriceService.errorMessageKey :: PriceService.rateLimitKeys,
        Value.hasProperty key (quoteValue []) = .ok false := by decide +kernel
    exact hnone
  have hfirst : PriceService.Prices (sampleFetch 0) (js "7500.5") :=
    ⟨_, _, _, rfl, parse_sampleFetch 0, hkeys 0, rfl, rfl, .inl rfl⟩
  have hlast : PriceService.Prices (sampleFetch 2) (js "28.375") :=
    ⟨_, _, _, rfl, parse_sampleFetch 2, hkeys 2, rfl, rfl, .inl rfl⟩
  have hunlimited (i : ℕ) : ¬ PriceService.RateLimitReply (sampleFetch i) :=
    PriceService.not_rateLimitReply (parse_sampleFetch i) fun key hkey => hkeys i key (by simp [hkey])
  refine ⟨text, line, v, segs, hcall, htext.trans (by rw [if_pos (.inr rfl)]), hsegs,
    hall.length_eq.symm.trans (by decide), ?_, ?_⟩
  · have hslot := hshown 0 _ _ _ (15001 / 2) rfl (answerTo_pricedEnv (by decide) 0) hfirst
      ((Formatter.test_pricePattern _).mp (by decide +kernel)) (by decide +kernel) (by decide +kernel)
      fun j hj => absurd hj j.not_lt_zero
    exact hslot.trans (by decide +kernel)
  · have hslot := hshown 2 _ _ _ (227 / 8) rfl (answerTo_pricedEnv (by decide) 2) hlast
      ((Formatter.test_pricePattern _).mp (by decide +kernel)) (by decide +kernel) (by decide +kernel)
      fun j hj t' answer' ht' hanswer' => by
        have hget := answerTo_pricedEnv (List.mem_of_getElem? ht') j
        exact Option.some.inj (hget.symm.trans hanswer') ▸ hunlimited j
    exact hslot.trans (by decide +kernel)

end Scheduler
end Spazito
