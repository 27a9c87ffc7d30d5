import Spazito.AppsScript
import Spazito.PlatformRuns
import Spazito.PriceService
import Spazito.RedactorWords
import Spazito.SmsService

set_option autoImplicit false

/-!
# Request addresses in exceptions

The exception of a failed call may carry the whole address, and with it a key or an account SID.
Whatever stands around the address, the redactor takes the secret with the rest of it.
-/
namespace Spazito
open Ecma Ecma.Regex Script

namespace Redactor

theorem Folds.refl (s : JSString) : Folds s s := by
  induction s with
  | nil => exact .nil
  | cons u s ih => exact .cons (by simp [foldCase]) ih

theorem IsScheme.length_le {h : JSString} (hh : IsScheme h) : h.length ≤ 8 := by
  obtain ⟨a, b, rfl, ha, hb⟩ := hh
  have h4 : a.length = 4 := ha.length_eq.symm
  have h1 : b.length ≤ 1 := by
    rcases hb with rfl | ⟨u, -, rfl⟩
    · exact Nat.zero_le 1
    · exact le_rfl
  rw [List.length_append, List.length_append, show (js "://").length = 3 by decide]
  omega

theorem IsScheme.nonspace {h : JSString} (hh : IsScheme h) : ∀ u ∈ h, isSpace u = false := by
  intro u hu
  have hunit := hh.units u hu
  simp [isWord, isDigit, isUpper, isLower, isSpace, UInt16.le_iff_toNat_le,
    ← UInt16.toNat_inj] at hunit ⊢
  omega

theorem greedy_url : Greedy urlPattern fun u => !isSpace u :=
  (greedy_rep_unit 0).seq.seq.seq

theorem url_rest {before t : JSString} {e : Cursor}
    (he : (run urlPattern ⟨before, t, []⟩).head? = some e) :
    e.rest = t.dropWhile fun u => !isSpace u := by
  obtain ⟨w, ⟨h, z, rfl, hh, hz⟩, hpass, -⟩ := (reads_url _ e).mp (List.mem_of_head? he)
  have hw : ∀ u ∈ h ++ z, (!isSpace u) = true := by
    intro u hu
    rcases List.mem_append.mp hu with hu | hu
    · simp [hh.nonspace u hu]
    · simp [hz u hu]
  have hrest := greedy_url _ e he
  rw [show t = (h ++ z) ++ e.rest from hpass.1, List.dropWhile_append_of_pos hw]
  cases hr : e.rest with
  | nil => rfl
  | cons u s =>
    rw [hr] at hrest
    have hu : (!isSpace u) = false := by simpa using hrest
    rw [List.dropWhile_cons_of_neg (by simp [hu])]

theorem replaceFrom_url {text before t : JSString} {e : Cursor}
    (he : (run urlPattern ⟨before, t, []⟩).head? = some e) :
    replaceFrom urlPattern text 0 before t =
      text ++ replaceFrom urlPattern text 0 [] (t.dropWhile fun u => !isSpace u) := by
  obtain ⟨m, hm, ht⟩ :=
    consumes_url _ e (List.mem_of_head? he)
  obtain rfl : t = m ++ e.rest := ht
  rw [replaceFrom_hit hm he rfl, ← url_rest he]
  have hstops : stops false none urlPattern = true := by decide
  exact congrArg (text ++ ·) (replaceFrom_congr hstops (by simp) 0 _)

theorem run_url_ne_nil (before : JSString) {t : JSString} (ht : 8 ≤ t.length) (u : JSString) :
    run urlPattern ⟨before, t ++ u, []⟩ ≠ [] ↔ ∃ x z, t = x ++ z ∧ IsScheme x := by
  rw [finds_url]
  constructor
  · rintro ⟨x, z, htu, hx, -⟩
    have hpre : x <+: t := List.prefix_of_prefix_length_le ⟨z, htu.symm⟩ (List.prefix_append t u)
      (hx.length_le.trans ht)
    obtain ⟨z', rfl⟩ := hpre
    exact ⟨x, z', rfl, hx⟩
  · rintro ⟨x, z, rfl, hx⟩
    exact ⟨x, z ++ u, by simp, hx, by simp, by simp⟩

theorem replaceFrom_url_alike {origin k₁ k₂ : JSString} (horigin : ∃ h z, origin = h ++ z ∧ IsScheme h)
    (hlen : 8 ≤ origin.length) (hns : ∀ u ∈ origin, isSpace u = false)
    (h₁ : ∀ u ∈ k₁, isSpace u = false) (h₂ : ∀ u ∈ k₂, isSpace u = false)
    (text before p s : JSString) :
    replaceFrom urlPattern text 0 before (p ++ (origin ++ (k₁ ++ s))) =
      replaceFrom urlPattern text 0 before (p ++ (origin ++ (k₂ ++ s))) := by
  induction hn : p.length using Nat.strong_induction_on generalizing before p with
  | h n ih =>
    have hat : ∀ k, run urlPattern ⟨before, p ++ (origin ++ (k ++ s)), []⟩ ≠ [] ↔
        ∃ x z, p ++ origin = x ++ z ∧ IsScheme x := by
      intro k
      rw [← List.append_assoc p]
      refine run_url_ne_nil before ?_ (k ++ s)
      rw [List.length_append]
      omega
    have hend : ∀ k : JSString, (∀ u ∈ k, isSpace u = false) → (∀ u ∈ p, isSpace u = false) →
        (p ++ (origin ++ (k ++ s))).dropWhile (fun u => !isSpace u) =
          s.dropWhile fun u => !isSpace u := by
      intro k hk hp
      rw [List.dropWhile_append_of_pos (by simpa using hp),
        List.dropWhile_append_of_pos (by simpa using hns), List.dropWhile_append_of_pos (by simpa using hk)]
    by_cases hmatch : ∃ x z, p ++ origin = x ++ z ∧ IsScheme x
    · have hhit : ∀ k, replaceFrom urlPattern text 0 before (p ++ (origin ++ (k ++ s))) =
          text ++ replaceFrom urlPattern text 0 []
            ((p ++ (origin ++ (k ++ s))).dropWhile fun u => !isSpace u) := by
        intro k
        obtain ⟨e, t, he⟩ := List.exists_cons_of_ne_nil ((hat k).mpr hmatch)
        exact replaceFrom_url (e := e) (by rw [he, List.head?_cons])
      rw [hhit k₁, hhit k₂]
      congr 1
      by_cases hp : ∀ u ∈ p, isSpace u = false
      · rw [hend k₁ h₁ hp, hend k₂ h₂ hp]
      · -- The match ends inside of `p`.
        have hdrop : ∀ t, (p ++ t).dropWhile (fun u => !isSpace u) =
            p.dropWhile (fun u => !isSpace u) ++ t := by
          intro t
          rw [List.dropWhile_append, if_neg]
          rw [List.isEmpty_iff, List.dropWhile_eq_nil_iff]
          simpa using hp
        rw [hdrop, hdrop]
        refine ih _ ?_ [] _ rfl
        obtain ⟨x, z, hxz, hx⟩ := hmatch
        have hne : p.dropWhile (fun u => !isSpace u) ≠ p := by
          intro hsame
          cases p with
          | nil => simp at hp
          | cons u p =>
            obtain ⟨y, x, rfl⟩ := List.exists_cons_of_ne_nil
              (show x ≠ [] from fun hnil => isScheme_ne_nil (hnil ▸ hx))
            obtain ⟨rfl, -⟩ : u = y ∧ p ++ origin = x ++ z := by simpa using hxz
            rw [List.dropWhile_cons_of_pos (by simp [hx.nonspace u (by simp)])] at hsame
            have hle := (List.dropWhile_suffix (l := p) fun u => !isSpace u).length_le
            rw [hsame, List.length_cons] at hle
            omega
        have hle := List.dropWhile_suffix (l := p) fun u => !isSpace u
        exact hn ▸ lt_of_le_of_ne hle.length_le fun hlen => hne (hle.eq_of_length hlen)
    · have hmiss : ∀ k, run urlPattern ⟨before, p ++ (origin ++ (k ++ s)), []⟩ = [] := fun k => by
        by_contra hne
        exact hmatch ((hat k).mp hne)
      cases p with
      | nil =>
        obtain ⟨h, z, ho, hh⟩ := horigin
        exact absurd ⟨h, z, ho, hh⟩ hmatch
      | cons u p =>
        have hmiss₁ := hmiss k₁
        have hmiss₂ := hmiss k₂
        rw [List.cons_append] at hmiss₁ hmiss₂
        rw [List.cons_append, List.cons_append, replaceFrom_miss hmiss₁, replaceFrom_miss hmiss₂,
          ih p.length (by simp [← hn]) (u :: before) p rfl]

theorem isScheme_https : IsScheme (js "https://") :=
  ⟨js "http", js "s", by decide, Folds.refl _, .inr ⟨115, by decide, by decide⟩⟩

/-- What stands around two addresses with one beginning, the redactor makes the same of both. -/
theorem scrubText_alike {path k₁ k₂ : JSString} (hns : ∀ u ∈ path, isSpace u = false)
    (h₁ : ∀ u ∈ k₁, isSpace u = false) (h₂ : ∀ u ∈ k₂, isSpace u = false) (p s : JSString) :
    scrubText (p ++ ((js "https://" ++ path ++ k₁) ++ s)) =
      scrubText (p ++ ((js "https://" ++ path ++ k₂) ++ s)) := by
  have horigin : ∀ u ∈ js "https://" ++ path, isSpace u = false := by
    intro u hu
    rcases List.mem_append.mp hu with hu | hu
    · exact isScheme_https.nonspace u hu
    · exact hns u hu
  have hlen : 8 ≤ (js "https://" ++ path).length := by
    rw [List.length_append, show (js "https://").length = 8 by decide]
    omega
  have hsame : replaceAll urlPattern (js "[url redacted]") (p ++ ((js "https://" ++ path ++ k₁) ++ s)) =
      replaceAll urlPattern (js "[url redacted]") (p ++ ((js "https://" ++ path ++ k₂) ++ s)) := by
    rw [List.append_assoc _ k₁, List.append_assoc _ k₂]
    exact replaceFrom_url_alike ⟨_, path, rfl, isScheme_https⟩ hlen horigin h₁ h₂ _ [] p s
  rw [scrubText, scrubText, hsame]

theorem encoded_nonspace {c t : JSString} (h : encodeURIComponent c = some t) :
    ∀ u ∈ t, isSpace u = false := by
  intro u hu
  have hunit := encodeURIComponent_units c t h u hu
  rw [isUnreserved, show js "-_.!~*'()" = [45, 95, 46, 33, 126, 42, 39, 40, 41] by decide] at hunit
  simp [isDigit, isUpper, isLower, isSpace, UInt16.le_iff_toNat_le, ← UInt16.toNat_inj] at hunit ⊢
  omega

end Redactor

def logged (t : Trace) : List (Level × JSString) :=
  t.filterMap fun
    | .op (.console level text) => some (level, text)
    | _ => none

theorem logged_append (t u : Trace) : logged (t ++ u) = logged t ++ logged u := List.filterMap_append

/-- The next request for this address ends in an exception with this message. -/
def Throws (w : World) (url message : JSString) : Prop :=
  ∃ name, ∀ r : Request, r.url = url → w.env.fetch 0 r = .error ⟨name, message⟩

namespace PriceService

theorem url_eq_ok {ticker apiKey u : JSString} (h : url ticker apiKey = .ok u) : ∃ symbol key,
    encodeURIComponent ticker = some symbol ∧ encodeURIComponent apiKey = some key ∧
      u = js "https://" ++ (js "www.alphavantage.co/query?function=GLOBAL_QUOTE&symbol=" ++
        (symbol ++ js "&apikey=")) ++ key := by
  unfold url at h
  obtain ⟨symbol, hsymbol, h⟩ := bind_eq_ok.mp h
  obtain ⟨key, hkey, h⟩ := bind_eq_ok.mp h
  cases hs : encodeURIComponent ticker with
  | none => simp [hs, url.orMalformed] at hsymbol
  | some s =>
    cases hk : encodeURIComponent apiKey with
    | none => simp [hk, url.orMalformed] at hkey
    | some k =>
      obtain rfl : s = symbol := by simpa [hs, url.orMalformed] using hsymbol
      obtain rfl : k = key := by simpa [hk, url.orMalformed] using hkey
      obtain rfl := Except.ok.inj h
      have hhead : apiHost ++ js "/query?function=GLOBAL_QUOTE" ++ js "&symbol=" =
          js "https://" ++ js "www.alphavantage.co/query?function=GLOBAL_QUOTE&symbol=" := by
        decide
      exact ⟨s, k, rfl, rfl, by rw [hhead]; simp⟩

theorem scrubText_url {ticker key₁ key₂ u₁ u₂ : JSString} (h₁ : url ticker key₁ = .ok u₁)
    (h₂ : url ticker key₂ = .ok u₂) (p s : JSString) :
    Redactor.scrubText (p ++ (u₁ ++ s)) = Redactor.scrubText (p ++ (u₂ ++ s)) := by
  obtain ⟨symbol, k₁, hsymbol, hk₁, rfl⟩ := url_eq_ok h₁
  obtain ⟨symbol', k₂, hsymbol', hk₂, rfl⟩ := url_eq_ok h₂
  obtain rfl : symbol = symbol' := Option.some.inj (hsymbol.symm.trans hsymbol')
  refine Redactor.scrubText_alike ?_ (Redactor.encoded_nonspace hk₁) (Redactor.encoded_nonspace hk₂) p s
  intro u hu
  rcases List.mem_append.mp hu with hu | hu
  · have hfixed : (js "www.alphavantage.co/query?function=GLOBAL_QUOTE&symbol=").all
      (fun u => !isSpace u) = true := by decide
    simpa using List.all_eq_true.mp hfixed u hu
  · rcases List.mem_append.mp hu with hu | hu
    · exact Redactor.encoded_nonspace hsymbol u hu
    · have hfixed : (js "&apikey=").all (fun u => !isSpace u) = true := by decide
      simpa using List.all_eq_true.mp hfixed u hu

variable [Platform]

theorem logged_quote {ticker apiKey u message : JSString} {w : World} (hu : url ticker apiKey = .ok u)
    (hw : Throws w u message) : logged ((quote ticker apiKey).run host w).performed =
      [(.warn, js "Alpha Vantage fetch failed for " ++ ticker ++ js ": " ++
        Redactor.scrubText message)] := by
  obtain ⟨name, hfetch⟩ := hw
  have hrun : (fetchQuote ticker apiKey).run host w =
      ⟨.error ⟨name, message⟩, ⟨w.store, w.env.afterFetch⟩, [.op (.fetch ⟨.get, u, [], []⟩)]⟩ := by
    simp only [fetchQuote, Prog.bind_eq, Prog.run_bind, hu, run_eval_ok, Result.andThen_ok, run_fetch,
      hfetch ⟨.get, u, [], []⟩ rfl, Result.andThen_error, List.nil_append]
  rw [quote, Prog.tryCatch_eq, Prog.run_catchWith, hrun, Result.orElse_error]
  rfl

end PriceService
namespace SmsService

theorem url_eq_ok {accountSid u : JSString} (h : url accountSid = .ok u) : ∃ sid,
    encodeURIComponent accountSid = some sid ∧
      u = js "https://" ++ js "api.twilio.com/2010-04-01/Accounts/" ++ (sid ++ js "/Messages.json") := by
  unfold url at h
  cases hs : encodeURIComponent accountSid with
  | none => simp [hs] at h
  | some sid =>
    rw [hs] at h
    obtain rfl := Except.ok.inj h
    have hhead : apiHost ++ js "/" ++ apiVersion ++ js "/Accounts/" =
        js "https://" ++ js "api.twilio.com/2010-04-01/Accounts/" := by decide
    exact ⟨sid, rfl, by rw [hhead, List.append_assoc]⟩

theorem scrubText_url {sid₁ sid₂ u₁ u₂ : JSString} (h₁ : url sid₁ = .ok u₁) (h₂ : url sid₂ = .ok u₂)
    (p s : JSString) :
    Redactor.scrubText (p ++ (u₁ ++ s)) = Redactor.scrubText (p ++ (u₂ ++ s)) := by
  have hlast : ∀ u ∈ js "/Messages.json", isSpace u = false := by
    have hfixed : (js "/Messages.json").all (fun u => !isSpace u) = true := by decide
    exact fun u hu => by simpa using List.all_eq_true.mp hfixed u hu
  have hsecret : ∀ {c t : JSString}, encodeURIComponent c = some t →
      ∀ u ∈ t ++ js "/Messages.json", isSpace u = false := fun ht u hu =>
    (List.mem_append.mp hu).elim (Redactor.encoded_nonspace ht u) (hlast u)
  obtain ⟨k₁, hk₁, rfl⟩ := url_eq_ok h₁
  obtain ⟨k₂, hk₂, rfl⟩ := url_eq_ok h₂
  refine Redactor.scrubText_alike (fun u hu => ?_) (hsecret hk₁) (hsecret hk₂) p s
  have hfixed : (js "api.twilio.com/2010-04-01/Accounts/").all (fun u => !isSpace u) = true := by
    decide
  simpa using List.all_eq_true.mp hfixed u hu

variable [Platform]

/-- The exception that ends a send: the network's, unless a property is missing first. -/
def sendError (s : Store) (e : JSError) : JSError :=
  if Config.isMissing (s .twilioAuthToken) = true then Config.missingError [.twilioAuthToken]
  else if Config.isMissing (s .recipientNumber) = true then Config.missingError [.recipientNumber]
  else if Config.isMissing (s .twilioFromNumber) = true then Config.missingError [.twilioFromNumber]
  else e

def masterLines (s : Store) : List (Level × JSString) :=
  if Config.isMissing (s .twilioAuthToken) = false ∧ Config.isMissing (s .twilioApiKeySid) = true then
    [(.warn, js "SmsService is authenticating with the master Auth Token. " ++
      js "Prefer a scoped API key: set TWILIO_API_KEY_SID (ADR 008 §5, SCHEMA.md).")]
  else []

theorem run_deliver_throws (text : JSString) {u message name : JSString} {w : World}
    (hsid : Config.isMissing (w.store .twilioSid) = false)
    (hu : url (w.store.secret .twilioSid) = .ok u)
    (hfetch : ∀ r : Request, r.url = u → w.env.fetch 0 r = .error ⟨name, message⟩) :
    ((deliver text).run host w).outcome = .error (sendError w.store ⟨name, message⟩) ∧
      logged ((deliver text).run host w).performed = masterLines w.store := by
  cases htoken : Config.isMissing (w.store .twilioAuthToken) with
  | true =>
    simp [deliver, Prog.run_bind, run_require, hsid, htoken, sendError, masterLines, logged]
  | false =>
    cases hkey : Config.isMissing (w.store .twilioApiKeySid) <;>
    cases hto : Config.isMissing (w.store .recipientNumber) <;>
    cases hfrom : Config.isMissing (w.store .twilioFromNumber) <;>
    simp [deliver, Prog.run_bind, run_require, run_optional, hsid, htoken, hkey, hto, hfrom, hu,
      consoleIf, sendError, masterLines, logged, run_fetch, hfetch]

theorem logged_send {u message name text : JSString} {w : World}
    (hsid : Config.isMissing (w.store .twilioSid) = false)
    (hu : url (w.store.secret .twilioSid) = .ok u)
    (hfetch : ∀ r : Request, r.url = u → w.env.fetch 0 r = .error ⟨name, message⟩) :
    logged ((send text).run host w).performed =
      if w.store.secret .debugMode = js "true" then
        [(.log, js "DEBUG_MODE — SMS not sent. Message: " ++ text)]
      else masterLines w.store ++ [(.error, js "Twilio send failed: " ++
        Redactor.scrubText (sendError w.store ⟨name, message⟩).message)] := by
  rw [send, Prog.tryCatch_eq, Prog.run_catchWith]
  simp only [Prog.bind_eq, Prog.run_bind, run_isDebugMode, Result.andThen_ok, decide_eq_true_eq]
  split_ifs with hdebug
  · rfl
  · obtain ⟨hend, hlines⟩ := run_deliver_throws text hsid hu hfetch
    rw [hend]
    simp only [Result.orElse_error, run_console, Result.andThen_ok, Prog.pure_eq,
      Prog.run_ret, List.append_nil]
    rw [List.singleton_append, show (Cmd.op (Op.getProperty .debugMode) :: ((deliver text).run host
      w).performed) = [.op (.getProperty .debugMode)] ++ ((deliver text).run host w).performed from rfl,
      logged_append, logged_append, hlines]
    rfl

def SameBut (k : Key) (s t : Store) : Prop := ∀ k' ≠ k, s k' = t k'

theorem logged_send_alike {p s text u₁ u₂ : JSString} {w₁ w₂ : World}
    (hstore : SameBut .twilioSid w₁.store w₂.store)
    (hsid₁ : Config.isMissing (w₁.store .twilioSid) = false)
    (hsid₂ : Config.isMissing (w₂.store .twilioSid) = false)
    (hu₁ : url (w₁.store.secret .twilioSid) = .ok u₁) (hu₂ : url (w₂.store.secret .twilioSid) = .ok u₂)
    (h₁ : Throws w₁ u₁ (p ++ (u₁ ++ s))) (h₂ : Throws w₂ u₂ (p ++ (u₂ ++ s))) :
    logged ((send text).run host w₁).performed = logged ((send text).run host w₂).performed := by
  obtain ⟨name₁, h₁⟩ := h₁
  obtain ⟨name₂, h₂⟩ := h₂
  have hdebug : w₁.store.secret .debugMode = w₂.store.secret .debugMode := by
    rw [Store.secret, Store.secret, hstore .debugMode (by decide)]
  have hlines : masterLines w₁.store = masterLines w₂.store := by
    rw [masterLines, masterLines, hstore .twilioAuthToken (by decide),
      hstore .twilioApiKeySid (by decide)]
  have herror : Redactor.scrubText (sendError w₁.store ⟨name₁, p ++ (u₁ ++ s)⟩).message =
      Redactor.scrubText (sendError w₂.store ⟨name₂, p ++ (u₂ ++ s)⟩).message := by
    rw [sendError, sendError, hstore .twilioAuthToken (by decide),
      hstore .recipientNumber (by decide), hstore .twilioFromNumber (by decide)]
    split_ifs
    · rfl
    · rfl
    · rfl
    · exact scrubText_url hu₁ hu₂ p s
  rw [logged_send hsid₁ hu₁ h₁, logged_send hsid₂ hu₂ h₂, hdebug, hlines, herror]

end SmsService

/-! ## No secret in the line of an exception -/

/-- Whatever stands around the address of a request in the message of an exception, the line that is
logged is the same for any two keys, and for any two account SIDs. -/
theorem exception_hides_secrets [Platform] (p s : JSString) :
    (∀ ticker key₁ key₂ u₁ u₂, PriceService.url ticker key₁ = .ok u₁ →
      PriceService.url ticker key₂ = .ok u₂ →
      Redactor.scrubText (p ++ (u₁ ++ s)) = Redactor.scrubText (p ++ (u₂ ++ s)) ∧
      ∀ w₁ w₂, Throws w₁ u₁ (p ++ (u₁ ++ s)) → Throws w₂ u₂ (p ++ (u₂ ++ s)) →
        logged ((PriceService.quote ticker key₁).run host w₁).performed =
          logged ((PriceService.quote ticker key₂).run host w₂).performed) ∧
    (∀ w₁ w₂ u₁ u₂, SmsService.SameBut .twilioSid w₁.store w₂.store →
      Config.isMissing (w₁.store .twilioSid) = false → Config.isMissing (w₂.store .twilioSid) = false →
      SmsService.url (w₁.store.secret .twilioSid) = .ok u₁ →
      SmsService.url (w₂.store.secret .twilioSid) = .ok u₂ →
      Redactor.scrubText (p ++ (u₁ ++ s)) = Redactor.scrubText (p ++ (u₂ ++ s)) ∧
      (Throws w₁ u₁ (p ++ (u₁ ++ s)) → Throws w₂ u₂ (p ++ (u₂ ++ s)) → ∀ text,
        logged ((SmsService.send text).run host w₁).performed =
          logged ((SmsService.send text).run host w₂).performed)) := by
  constructor
  · intro ticker key₁ key₂ u₁ u₂ h₁ h₂
    have hsame := PriceService.scrubText_url h₁ h₂ p s
    refine ⟨hsame, fun w₁ w₂ hw₁ hw₂ => ?_⟩
    rw [PriceService.logged_quote h₁ hw₁, PriceService.logged_quote h₂ hw₂, hsame]
  · intro w₁ w₂ u₁ u₂ hstore hsid₁ hsid₂ hu₁ hu₂
    exact ⟨SmsService.scrubText_url hu₁ hu₂ p s, fun h₁ h₂ text =>
      SmsService.logged_send_alike hstore hsid₁ hsid₂ hu₁ hu₂ h₁ h₂⟩

section Samples
open AppsScript

def unreachable (s : Store) : World :=
  ⟨s, { sampleEnv with
    fetch := fun _ r => .error ⟨js "Exception", js "Address unavailable: " ++ (r.url ++ [])⟩ }⟩

theorem throws_unreachable (s : Store) (u : JSString) :
    Throws (unreachable s) u (js "Address unavailable: " ++ (u ++ [])) :=
  ⟨js "Exception", fun r hr => by rw [← hr]; rfl⟩

def spyUrl (key : JSString) : JSString :=
  PriceService.apiHost ++ js "/query?function=GLOBAL_QUOTE" ++ js "&symbol=" ++ js "SPY" ++
    js "&apikey=" ++ key

theorem url_spy {key : JSString} (hk : encodeURIComponent key = some key) :
    PriceService.url (js "SPY") key = .ok (spyUrl key) := by
  have hspy : encodeURIComponent (js "SPY") = some (js "SPY") := by decide
  rw [PriceService.url, hspy, hk]
  rfl

theorem exception_hides_secrets_sample :
    logged ((PriceService.quote (js "SPY") (js "demo")).run host (unreachable sampleStore)).performed =
      logged ((PriceService.quote (js "SPY") (js "other")).run host (unreachable sampleStore)).performed ∧
    logged ((SmsService.send (js "hi")).run host (unreachable sampleStore)).performed =
      logged ((SmsService.send (js "hi")).run host
        (unreachable (sampleStore.set .twilioSid (js "AC4567")))).performed := by
  have hdemo : encodeURIComponent (js "demo") = some (js "demo") := by decide
  have hother : encodeURIComponent (js "other") = some (js "other") := by decide
  obtain ⟨hquote, hsend⟩ := exception_hides_secrets (js "Address unavailable: ") []
  refine ⟨(hquote _ _ _ _ _ (url_spy hdemo) (url_spy hother)).2 _ _
    (throws_unreachable _ _) (throws_unreachable _ _), ?_⟩
  have hurl : ∀ sid : JSString, encodeURIComponent sid = some sid → SmsService.url sid =
      .ok (SmsService.apiHost ++ js "/" ++ SmsService.apiVersion ++ js "/Accounts/" ++ sid ++
        js "/Messages.json") := fun sid hsid => by rw [SmsService.url, hsid]
  have h₁ : SmsService.url ((unreachable sampleStore).store.secret .twilioSid) = _ :=
    (congrArg SmsService.url (show _ = js "AC0123" by decide)).trans (hurl _ (by decide))
  have h₂ : SmsService.url ((unreachable (sampleStore.set .twilioSid (js "AC4567"))).store.secret
      .twilioSid) = _ :=
    (congrArg SmsService.url (show _ = js "AC4567" by decide)).trans (hurl _ (by decide))
  exact (hsend _ _ _ _ (fun k hk => (Store.set_ne _ _ hk).symm) (by decide) (by decide) h₁ h₂).2
    (throws_unreachable _ _) (throws_unreachable _ _) _

end Samples
end Spazito
