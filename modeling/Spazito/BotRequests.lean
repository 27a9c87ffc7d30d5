import Spazito.BotPool
import Spazito.EcmaUri
import Spazito.RedactorUrls

set_option autoImplicit false

/-!
# What the servers get to read

Neither a ticker nor a key can become anything else in a URL, nor an account that is no dot segment,
and whatever goes on at the same time, a request has one of two forms.
-/
namespace Spazito
open Ecma Script

theorem unmarked_https : ∀ mark ∈ [35, 58, 63], mark ∉ js "https" := unmarked (by decide)

namespace PriceService

def quoteUrl (ticker apiKey : JSString) : Url where
  scheme := js "https"
  host := js "www.alphavantage.co"
  path := [js "query"]
  query := [(js "function", js "GLOBAL_QUOTE"), (js "symbol", ticker), (js "apikey", apiKey)]

theorem read_url {ticker apiKey u : JSString} (h : url ticker apiKey = .ok u) :
    Url.read u = some (quoteUrl ticker apiKey) := by
  obtain ⟨symbol, key, hsymbol, hkey, rfl⟩ := url_eq_ok h
  have hfields : ∀ mark ∈ [35, 38], ∀ s ∈ [js "function=GLOBAL_QUOTE", js "symbol" ++ 61 :: symbol,
      js "apikey" ++ 61 :: key], mark ∉ s := by
    intro mark hmark s hs
    have hplain : (isUnreserved mark || mark == 37) = false ∧ mark ∉ js "function=GLOBAL_QUOTE" ∧
        mark ∉ js "symbol=" ∧ mark ∉ js "apikey=" := by
      rcases List.mem_pair.mp hmark with rfl | rfl <;> decide
    obtain ⟨hun, hfunction, hname, hname'⟩ := hplain
    have hsym := not_mem_encoded hsymbol hun
    have hk := not_mem_encoded hkey hun
    simp only [List.mem_cons, List.not_mem_nil, or_false] at hs
    rcases hs with rfl | rfl | rfl
    · exact hfunction
    · have hsplit : js "symbol" ++ 61 :: symbol = js "symbol=" ++ symbol := rfl
      rw [hsplit, List.mem_append, not_or]
      exact ⟨hname, hsym⟩
    · have hsplit : js "apikey" ++ 61 :: key = js "apikey=" ++ key := rfl
      rw [hsplit, List.mem_append, not_or]
      exact ⟨hname', hk⟩
  have hfunction : readParameter (js "function=GLOBAL_QUOTE") =
      some (js "function", js "GLOBAL_QUOTE") := by decide +kernel
  have hsym : readParameter (js "symbol" ++ 61 :: symbol) = some (js "symbol", ticker) :=
    readParameter_eq (by decide) (by decide +kernel) (readField_encode hsymbol)
  have hk : readParameter (js "apikey" ++ 61 :: key) = some (js "apikey", apiKey) :=
    readParameter_eq (by decide) (by decide +kernel) (readField_encode hkey)
  have hquery : [js "function=GLOBAL_QUOTE", js "symbol" ++ 61 :: symbol, js "apikey" ++ 61 :: key].mapM
      readParameter = some (quoteUrl ticker apiKey).query := by
    simp [hfunction, hsym, hk, quoteUrl]
  have hhost : ∀ mark ∈ [35, 47, 63], mark ∉ js "www.alphavantage.co" := unmarked (by decide)
  have hpath : ∀ mark ∈ [35, 47, 63], ∀ s ∈ [js "query"], mark ∉ s := by
    intro mark hmark s hs
    rw [List.mem_singleton.mp hs]
    exact unmarked (s := js "query") (by decide) mark hmark
  have hsome : [38].intercalate [js "function=GLOBAL_QUOTE", js "symbol" ++ 61 :: symbol,
      js "apikey" ++ 61 :: key] ≠ [] := by simp [js, encodePoint]
  have hread := Url.read_query unmarked_https hhost (List.cons_ne_nil _ _) hpath
    (show [js "query"].mapM decodeURIComponent = some [js "query"] by decide +kernel) hsome hfields hquery
  have hform : js "https://" ++ (js "www.alphavantage.co/query?function=GLOBAL_QUOTE&symbol=" ++
      (symbol ++ js "&apikey=")) ++ key = js "https" ++ 58 :: 47 :: 47 :: (js "www.alphavantage.co" ++
      47 :: ([47].intercalate [js "query"] ++ 63 :: [38].intercalate [js "function=GLOBAL_QUOTE",
      js "symbol" ++ 61 :: symbol, js "apikey" ++ 61 :: key])) := by
    simp [js, encodePoint]
  rw [hform]
  exact hread

end PriceService
namespace SmsService

/-- The address as its server reads it; an account that is a dot segment stands for no segment. -/
def messagesUrl (accountSid : JSString) : Url where
  scheme := js "https"
  host := js "api.twilio.com"
  path :=
    if accountSid = js ".." then [js "2010-04-01", js "Messages.json"]
    else if accountSid = js "." then [js "2010-04-01", js "Accounts", js "Messages.json"]
    else [js "2010-04-01", js "Accounts", accountSid, js "Messages.json"]
  query := []

theorem messagesUrl_path (accountSid : JSString) : (messagesUrl accountSid).path =
    withoutDots [] [js "2010-04-01", js "Accounts", accountSid, js "Messages.json"] := by
  unfold messagesUrl
  split_ifs with hdots hdot
  · rw [hdots]
    decide
  · rw [hdot]
    decide
  · refine (withoutDots_plain ⟨?_, ?_⟩ []).symm
    · simp only [List.mem_cons, List.not_mem_nil, or_false, not_or]
      exact ⟨by decide, by decide, Ne.symm hdot, by decide⟩
    · simp only [List.mem_cons, List.not_mem_nil, or_false, not_or]
      exact ⟨by decide, by decide, Ne.symm hdots, by decide⟩

theorem read_url {accountSid u : JSString} (h : url accountSid = .ok u) :
    Url.read u = some (messagesUrl accountSid) := by
  obtain ⟨sid, hsid, rfl⟩ := url_eq_ok h
  have hhost : ∀ mark ∈ [35, 47, 63], mark ∉ js "api.twilio.com" := unmarked (by decide)
  have hsegments : ∀ mark ∈ [35, 47, 63], ∀ s ∈ [js "2010-04-01", js "Accounts", sid,
      js "Messages.json"], mark ∉ s := by
    intro mark hmark s hs
    have hun : (isUnreserved mark || mark == 37) = false := by
      simp only [List.mem_cons, List.not_mem_nil, or_false] at hmark
      rcases hmark with rfl | rfl | rfl <;> decide
    simp only [List.mem_cons, List.not_mem_nil, or_false] at hs
    rcases hs with rfl | rfl | rfl | rfl
    · exact unmarked (s := js "2010-04-01") (by decide) mark hmark
    · exact unmarked (s := js "Accounts") (by decide) mark hmark
    · exact not_mem_encoded hsid hun
    · exact unmarked (s := js "Messages.json") (by decide) mark hmark
  have hversion : decodeURIComponent (js "2010-04-01") = some (js "2010-04-01") := by decide +kernel
  have haccounts : decodeURIComponent (js "Accounts") = some (js "Accounts") := by decide +kernel
  have hmessages : decodeURIComponent (js "Messages.json") = some (js "Messages.json") := by
    decide +kernel
  have hpath : [js "2010-04-01", js "Accounts", sid, js "Messages.json"].mapM decodeURIComponent =
      some [js "2010-04-01", js "Accounts", accountSid, js "Messages.json"] := by
    simp [hversion, haccounts, decodeURIComponent_encode hsid, hmessages]
  have hread := Url.read_path unmarked_https hhost (List.cons_ne_nil _ _) hsegments hpath
  rw [← messagesUrl_path] at hread
  have hform : js "https://" ++ js "api.twilio.com/2010-04-01/Accounts/" ++ (sid ++ js "/Messages.json") =
      js "https" ++ 58 :: 47 :: 47 :: (js "api.twilio.com" ++ 47 :: [47].intercalate
        [js "2010-04-01", js "Accounts", sid, js "Messages.json"]) := by
    simp [js, encodePoint]
  rw [hform]
  exact hread

end SmsService

section Pool

variable [Platform] {ι : Type} [DecidableEq ι] {s₀ : Store} {b₀ : Bot} {entry : ι → Entry}

def AsksPrice (s₀ : Store) (r : Request) : Prop :=
  ∃ t, Tickers.Canonical t ∧ r.method = .get ∧ r.payload = [] ∧ r.headers = [] ∧
    Url.read r.url = some (PriceService.quoteUrl t (s₀.secret .alphaVantageKey))

/-- One text, from the configured number to the recipient, under the configured account. -/
def SendsText (s₀ : Store) (r : Request) : Prop :=
  ∃ text, r.method = .post ∧ Url.read r.url = some (SmsService.messagesUrl (s₀.secret .twilioSid)) ∧
    r.payload = [(js "To", s₀.secret .recipientNumber), (js "From", s₀.secret .twilioFromNumber),
      (js "Body", text)] ∧
    r.headers = [(js "Authorization", js "Basic " ++
      Platform.base64Encode (twilioUser s₀ ++ js ":" ++ s₀.secret .twilioAuthToken))]

omit [Platform] [DecidableEq ι] in
theorem PriceRequest.form {t : JSString} {r : Request} (ht : Tickers.Canonical t)
    (h : PriceRequest s₀ t r) : AsksPrice s₀ r := by
  obtain ⟨url, hurl, rfl⟩ := h
  exact ⟨t, ht, rfl, rfl, rfl, PriceService.read_url hurl⟩

omit [DecidableEq ι] in
theorem TextRequest.form {text : JSString} {r : Request} (h : TextRequest s₀ text r) :
    SendsText s₀ r := by
  obtain ⟨url, hurl, rfl⟩ := h
  exact ⟨text, rfl, SmsService.read_url hurl, rfl, rfl⟩

/-- **A request means what the bot meant.** In every run, whatever the configuration, the watchlist and
the requests hold, what an execution asks of the network is read by the server as the price of one
canonical ticker with the configured key, or as one text to the recipient under the configured
account, which is lost from the path only if it is a dot segment. -/
theorem pool_requests (h₀ : b₀.Represents s₀) {p : Pool GAS JSError (Option JSString) ι Store}
    (hrun : Pool.Runs (storeEffect True) (botStart entry s₀) p) :
    ∀ i r c, p.thread i = .perform (.op (.fetch r)) c → AsksPrice s₀ r ∨ SendsText s₀ r := by
  intro i r c hfetch
  obtain ⟨log, hlog⟩ := exists_watched h₀ hrun
  cases hi : entry i with
  | doPost e =>
    rcases hlog.asks_fetch hi hfetch with ⟨t, -, hc, hprice, -⟩ | ⟨text, htext, -⟩
    · exact .inl (hprice.form hc)
    · exact .inr htext.form
  | runDailyAlert =>
    rcases hlog.asks_fetch hi hfetch with ⟨t, hc, hprice⟩ | ⟨text, htext⟩
    · exact .inl (hprice.form hc)
    · exact .inr htext.form

end Pool

section
open AppsScript

def fetchOf : Prog GAS JSError (Option JSString) → Option Request
  | .perform (.op (.fetch r)) _ => some r
  | _ => none

theorem exists_fetch {t : Prog GAS JSError (Option JSString)} (h : (fetchOf t).isSome = true) :
    ∃ r c, t = .perform (.op (.fetch r)) c := by
  unfold fetchOf at h
  split at h
  · exact ⟨_, _, rfl⟩
  · cases h

/-- A daily run that is about to send its text. -/
def sendingPool : Pool GAS JSError (Option JSString) Unit Store :=
  (List.replicate 31 ((), true)).foldl (Pool.play sampleAnswer)
    (botStart (fun _ => .runDailyAlert) sampleStore)

theorem pool_requests_sending : ∃ r c, sendingPool.thread () = .perform (.op (.fetch r)) c ∧
    SendsText sampleStore r := by
  have hsends : (fetchOf (sendingPool.thread ())).map Request.method = some .post := by decide +kernel
  obtain ⟨r, c, hfetch⟩ := exists_fetch (t := sendingPool.thread ()) (by
    cases h : fetchOf (sendingPool.thread ()) with
    | none => rw [h] at hsends; cases hsends
    | some r => rfl)
  refine ⟨r, c, hfetch, (pool_requests (Bot.represents_initial installed_sampleStore)
    (Pool.runs_play storeEffect_sampleAnswer _) () r c hfetch).resolve_left ?_⟩
  rintro ⟨t, -, hget, -⟩
  rw [hfetch] at hsends
  have hpost : r.method = .post := Option.some.inj hsends
  rw [hget] at hpost
  cases hpost

end
end Spazito
