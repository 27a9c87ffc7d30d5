import Spazito.CommandHandler
import Spazito.PlatformRuns
import Spazito.Scheduler

set_option autoImplicit false

/-!
# Footprints of the shell modules

For each function of the shell: the properties it may read and write, and the requests it may make.
-/
namespace Spazito
open Ecma Script

variable [Platform] {F : Footprint}

/-! ## The vault and the gate -/

namespace SecurityVault

omit [Platform] in
theorem within_currentSequence (h : F.reads .secMsgCount) : currentSequence.Within F.allows :=
  (Footprint.getProperty h).bind fun _ => trivial

omit [Platform] in
theorem within_nextSequence (hr : F.reads .secMsgCount) (hw : F.writes .secMsgCount) :
    nextSequence.Within F.allows := by
  refine Footprint.withScriptLock ?_ trivial
  exact (within_currentSequence hr).bind fun _ => (Footprint.setProperty hw).bind fun _ => trivial

omit [Platform] in
theorem within_isSealed (h : F.reads .secSealed) : isSealed.Within F.allows :=
  (Footprint.getProperty h).bind fun _ => trivial

omit [Platform] in
theorem within_readJson {key : Key} (h : F.reads key) : (readJson key).Within F.allows := by
  refine (Footprint.getProperty h).bind fun raw => ?_
  cases raw with
  | none => trivial
  | some raw =>
    dsimp only
    split
    · trivial
    · trivial
    · exact (Footprint.console _ _).bind fun _ => trivial

theorem within_hashSender {sender : Option JSString} (h : F.reads .verifierKey) :
    (hashSender sender).Within F.allows := (Footprint.require h).bind fun _ => trivial

theorem within_appendAudit {kind : JSString} {sender : Option JSString}
    (hr : F.reads .secAudit ∧ F.reads .verifierKey) (hw : F.writes .secAudit) :
    (appendAudit kind sender).Within F.allows :=
  (within_readJson hr.1).bind fun _ => Footprint.now.bind fun _ =>
    (within_hashSender hr.2).bind fun _ => Footprint.setProperty hw

theorem within_recordAudit {kind : JSString} {sender : Option JSString}
    (hr : F.reads .secAudit ∧ F.reads .verifierKey) (hw : F.writes .secAudit) :
    (recordAudit kind sender).Within F.allows :=
  Footprint.withScriptLock (within_appendAudit hr hw) trivial

omit [Platform] in
theorem within_recentAudit {count : ℕ} (h : F.reads .secAudit) :
    (recentAudit count).Within F.allows :=
  (within_readJson h).bind fun _ => trivial

theorem within_checkAndRecordSid {sid : Value} (hr : F.reads .secSeenSids)
    (hw : F.writes .secSeenSids) : (checkAndRecordSid sid).Within F.allows := by
  unfold checkAndRecordSid
  split
  · split_ifs
    · trivial
    · refine Footprint.withScriptLock ?_ trivial
      refine Footprint.now.bind fun _ => (within_readJson hr).bind fun _ =>
        (Footprint.eval _).bind fun _ => (Footprint.eval _).bind fun _ => ?_
      split_ifs
      · trivial
      · exact (Footprint.setProperty hw).bind fun _ => trivial
  · trivial

omit [Platform] in
theorem within_reachesSeal {failures : Number} (h : F.reads .secSealed) :
    (reachesSeal failures).Within F.allows := by
  unfold reachesSeal
  split_ifs
  · exact (within_isSealed h).bind fun _ => trivial
  · trivial

theorem within_registerFailure {sender : Option JSString}
    (hr : ∀ k ∈ [Key.secFailures, .secSealed, .secAudit, .verifierKey], F.reads k)
    (hw : ∀ k ∈ [Key.secFailures, .secSealed, .secAudit], F.writes k) :
    (registerFailure sender).Within F.allows := by
  simp only [List.forall_mem_cons, List.not_mem_nil, false_implies, implies_true, and_true] at hr hw
  obtain ⟨hf, hs, ha⟩ := hr
  obtain ⟨wf, ws, wa⟩ := hw
  have hsealed : isSealed.Within F.allows := within_isSealed hs
  refine Footprint.withScriptLock ?_ (hsealed.bind fun _ => trivial)
  refine (Footprint.getProperty hf).bind fun _ => (Footprint.setProperty wf).bind fun _ =>
    (within_appendAudit ha wa).bind fun _ => (within_reachesSeal hs).bind fun tripped => ?_
  split_ifs
  · exact (Footprint.setProperty ws).bind fun _ => (within_appendAudit ha wa).bind fun _ =>
      (Footprint.console _ _).bind fun _ => trivial
  · exact hsealed.bind fun _ => trivial

omit [Platform] in
theorem within_resetFailures (hr : F.reads .secFailures) (hw : F.writes .secFailures) :
    resetFailures.Within F.allows := by
  refine (Footprint.getProperty hr).bind fun raw => ?_
  split_ifs
  · trivial
  · exact Footprint.withScriptLock (Footprint.setProperty hw) trivial

theorem within_unsealBot {sender : Option JSString}
    (hr : F.reads .secAudit ∧ F.reads .verifierKey)
    (hw : ∀ k ∈ [Key.secSealed, .secFailures, .secAudit], F.writes k) :
    (unsealBot sender).Within F.allows := by
  simp only [List.forall_mem_cons, List.not_mem_nil, false_implies, implies_true, and_true] at hw
  obtain ⟨ws, wf, wa⟩ := hw
  refine Footprint.withScriptLock ?_ ((Footprint.console _ _).bind fun _ => trivial)
  exact (Footprint.setProperty ws).bind fun _ => (Footprint.setProperty wf).bind fun _ =>
    (within_appendAudit hr wa).bind fun _ => trivial

end SecurityVault

namespace SecurityGate

omit [Platform] in
theorem within_matchesToken {params : Parameters} (h : F.reads .webhookToken) :
    (matchesToken params).Within F.allows := (Footprint.require h).bind fun _ => trivial

omit [Platform] in
theorem within_matchesRecipient {params : Parameters} (h : F.reads .recipientNumber) :
    (matchesRecipient params).Within F.allows := (Footprint.require h).bind fun _ => trivial

/-- The security state: what a webhook request may change before it is allowed to act. -/
def securityKeys : List Key := [.secFailures, .secSealed, .secSeenSids, .secAudit]

/-- The gate reads what it likes, writes security state only, and makes no request. -/
abbrev footprint : Footprint := ⟨fun _ => True, (· ∈ securityKeys), fun _ => False⟩

theorem within_tryUnseal (params : Parameters) (hr : ∀ k, k ≠ .secFailures → F.reads k)
    (hw : ∀ k ∈ securityKeys, F.writes k) : (tryUnseal params).Within F.allows := by
  unfold tryUnseal
  dsimp only
  split_ifs
  · trivial
  · refine (Footprint.require (hr _ (by decide))).bind fun _ => (within_matchesToken (hr _ (by decide))).bind
      fun _ => (within_matchesRecipient (hr _ (by decide))).bind fun _ => ?_
    split_ifs
    · trivial
    · refine (SecurityVault.within_checkAndRecordSid (hr _ (by decide)) (hw _ (by decide))).bind fun _ => ?_
      split_ifs
      · trivial
      · refine (SecurityVault.within_unsealBot ⟨hr _ (by decide), hr _ (by decide)⟩ fun k hk => hw k ?_).bind
          fun _ => ?_
        · revert k
          decide
        · split_ifs
          · trivial
          · exact (Footprint.console _ _).bind fun _ => trivial

theorem within_authorize (e : Option WebhookEvent) : (authorize e).Within footprint.allows := by
  have hreset : SecurityVault.resetFailures.Within footprint.allows :=
    SecurityVault.within_resetFailures trivial (by decide)
  refine (SecurityVault.within_isSealed trivial).bind fun _ => ?_
  split_ifs
  · refine (within_tryUnseal _ (fun _ _ => trivial) fun _ hk => hk).bind fun _ => ?_
    split_ifs
    · exact hreset.bind fun _ => trivial
    · trivial
  · refine (within_matchesToken trivial).bind fun _ => (within_matchesRecipient trivial).bind
      fun _ => ?_
    split_ifs
    · refine (Footprint.console _ _).bind fun _ => ?_
      exact (SecurityVault.within_registerFailure (fun _ _ => trivial) (by decide)).bind
        fun _ => trivial
    · exact (Footprint.console _ _).bind fun _ => trivial
    · refine (SecurityVault.within_checkAndRecordSid trivial (by decide)).bind fun _ => ?_
      split_ifs
      · exact (Footprint.console _ _).bind fun _ =>
          (SecurityVault.within_recordAudit ⟨trivial, trivial⟩ (by decide)).bind fun _ => trivial
      · exact hreset.bind fun _ => trivial

end SecurityGate
/-! ## Texts and prices -/

namespace SmsService

def Carries (text : JSString) (r : Request) : Prop :=
  apiHost <+: r.url ∧ r.payload.lookup (js "Body") = some text

def texts (t : Trace) : List JSString :=
  t.filterMap fun
    | .op (.fetch r) => if apiHost.isPrefixOf r.url then r.payload.lookup (js "Body") else none
    | _ => none

omit [Platform] in
theorem mem_texts {t : Trace} {text : JSString} (h : text ∈ texts t) :
    ∃ r, .op (.fetch r) ∈ t ∧ Carries text r := by
  obtain ⟨c, hc, h⟩ := List.mem_filterMap.mp h
  split at h
  · rename_i r
    split_ifs at h with hp
    exact ⟨r, hc, List.isPrefixOf_iff_prefix.mp hp, h⟩
  · cases h

def keys : List Key := [.debugMode, .twilioSid, .twilioAuthToken, .twilioApiKeySid,
  .recipientNumber, .twilioFromNumber]

omit [Platform] in
theorem url_host {accountSid u : JSString} (h : url accountSid = .ok u) : apiHost <+: u := by
  unfold url at h
  split at h
  · cases h
    exact ⟨_, by simp only [List.append_assoc]; rfl⟩
  · cases h

theorem within_readResponse (response : Response) : (readResponse response).Within F.allows := by
  unfold readResponse
  split_ifs
  · split
    · trivial
    · exact (Footprint.eval _).bind fun _ => (Footprint.console _ _).bind fun _ => trivial
  · dsimp only
    split_ifs
    · exact (Footprint.console _ _).bind fun _ => trivial
    · exact (Footprint.eval _).bind fun _ => (Footprint.console _ _).bind fun _ => trivial

theorem within_send {message : JSString} (hr : ∀ k ∈ keys, F.reads k)
    (hf : ∀ r, Carries message r → F.fetches r) : (send message).Within F.allows := by
  simp only [keys, List.forall_mem_cons, List.not_mem_nil, false_implies, implies_true,
    and_true] at hr
  obtain ⟨hdebug, hsid, htoken, hkey, hto, hfrom⟩ := hr
  refine Prog.Within.catchWith ?_ fun e => (Footprint.console _ _).bind fun _ => trivial
  refine (Footprint.isDebugMode hdebug).bind fun debug => ?_
  split_ifs
  · exact (Footprint.console _ _).bind fun _ => trivial
  · refine (Footprint.require hsid).bind fun sid => (Footprint.require htoken).bind fun _ =>
      (Footprint.optional hkey).bind fun _ => (Footprint.consoleIf _ _ _).bind fun _ => ?_
    cases hu : url sid with
    | error f => trivial
    | ok u =>
      refine (Footprint.require hto).bind fun _ => (Footprint.require hfrom).bind fun _ => ?_
      exact (Footprint.fetch (hf _ ⟨url_host hu, rfl⟩)).bind fun r => within_readResponse r

end SmsService

namespace PriceService

def Asks (r : Request) : Prop := apiHost <+: r.url

omit [Platform] in
theorem url_host {ticker apiKey u : JSString} (h : url ticker apiKey = .ok u) : apiHost <+: u := by
  obtain ⟨symbol, -, h⟩ := bind_eq_ok.mp h
  obtain ⟨key, -, h⟩ := bind_eq_ok.mp h
  cases h
  exact ⟨_, by simp only [List.append_assoc]; rfl⟩

def requests (t : Trace) : List Request :=
  t.filterMap fun
    | .op (.fetch r) => if apiHost.isPrefixOf r.url then some r else none
    | _ => none

omit [Platform] in
theorem requests_eq_nil {t : Trace} (ht : ∀ c ∈ t, F.allows c) (hF : ∀ r, F.fetches r → ¬ Asks r) :
    requests t = [] := by
  refine List.filterMap_eq_nil_iff.mpr fun c hc => ?_
  have hallow := ht c hc
  split
  · rename_i r
    exact if_neg fun h => hF r hallow (List.isPrefixOf_iff_prefix.mp h)
  · rfl

omit [Platform] in
theorem not_asks_of_carries {text : JSString} {r : Request} (h : SmsService.Carries text r) :
    ¬ Asks r := by
  intro hr
  rcases List.prefix_or_prefix_of_prefix hr h.1 with hp | hp
  · exact absurd hp (by decide)
  · exact absurd hp (by decide)

theorem within_readBody {A : Cmd GAS → Prop} (hA : ∀ level text, A (.op (.console level text)))
    (ticker : JSString) (body : Value) : (readBody ticker body).Within A := by
  have hconsole (level : Level) (text : JSString) : (console level text).Within A :=
    ⟨hA level text, fun _ => trivial⟩
  have heval {α : Type} (x : Except Fault α) : (eval x).Within A := by cases x <;> trivial
  refine (heval _).bind fun key => ?_
  cases key with
  | some key => exact (hconsole _ _).bind fun _ => trivial
  | none =>
    refine (heval _).bind fun rejected => ?_
    split_ifs
    · exact (heval _).bind fun _ => (hconsole _ _).bind fun _ => trivial
    · refine (heval _).bind fun quote => (heval _).bind fun price => ?_
      split_ifs
      · exact (hconsole _ _).bind fun _ => trivial
      · refine (heval _).bind fun number => ?_
        split_ifs
        · exact (hconsole _ _).bind fun _ => trivial
        · exact (heval _).bind fun _ => (hconsole _ _).bind fun _ => (heval _).bind fun _ => trivial

theorem within_quote (ticker apiKey : JSString) (hf : ∀ r, Asks r → F.fetches r) :
    (quote ticker apiKey).Within F.allows := by
  refine Prog.Within.catchWith ?_ fun e => (Footprint.console _ _).bind fun _ => trivial
  unfold fetchQuote
  cases hu : url ticker apiKey with
  | error f => trivial
  | ok u =>
    refine (Footprint.fetch (hf _ (url_host hu))).bind fun response => ?_
    split_ifs
    · exact (Footprint.console _ _).bind fun _ => trivial
    · split
      · trivial
      · exact within_readBody (fun _ _ => trivial) ticker _

theorem within_quotesLoop (apiKey : JSString) (first : Bool) (tickers : List JSString)
    (hf : ∀ r, Asks r → F.fetches r) : (quotesLoop apiKey first tickers).Within F.allows := by
  induction tickers generalizing first with
  | nil => trivial
  | cons ticker rest ih =>
    have hspace : (spaceCalls first).Within F.allows := by
      unfold spaceCalls
      split_ifs
      · trivial
      · exact Footprint.sleep _
    refine hspace.bind fun _ => (within_quote ticker apiKey hf).bind fun q => ?_
    split_ifs
    · exact (Footprint.console _ _).bind fun _ => trivial
    · exact (ih false).bind fun _ => trivial

theorem within_quotesFor (tickers : List JSString) (hr : F.reads .alphaVantageKey)
    (hf : ∀ r, Asks r → F.fetches r) : (quotesFor tickers).Within F.allows := by
  unfold quotesFor
  split_ifs
  · trivial
  · exact (Footprint.consoleIf _ _ _).bind fun _ => (Footprint.require hr).bind fun _ =>
      within_quotesLoop _ _ _ hf

end PriceService

/-! ## The watchlist and the daily run -/

namespace Watchlist

theorem within_tickers (h : F.reads .watchlist) : tickers.Within F.allows := by
  have hcorrupted : ∀ message raw, (corrupted message raw).Within F.allows :=
    fun _ _ => (Footprint.console _ _).bind fun _ => trivial
  refine (Footprint.getProperty h).bind fun raw => ?_
  cases raw with
  | none => trivial
  | some raw =>
    dsimp only
    split
    · exact hcorrupted _ _
    · exact (Footprint.eval _).bind fun _ => (Footprint.consoleIf _ _ _).bind fun _ =>
        (Footprint.consoleIf _ _ _).bind fun _ => trivial
    · exact hcorrupted _ _

omit [Platform] in
theorem within_isPaused (h : F.reads .paused) : isPaused.Within F.allows :=
  (Footprint.getProperty h).bind fun _ => trivial

end Watchlist

namespace Signer

omit [Platform] in
theorem within_claim (hd : F.reads .debugMode) (hr : F.reads .secMsgCount)
    (hw : F.writes .secMsgCount) : claim.Within F.allows := by
  refine (Footprint.isDebugMode hd).bind fun debug => ?_
  split_ifs
  · exact (SecurityVault.within_currentSequence hr).bind fun _ => trivial
  · exact SecurityVault.within_nextSequence hr hw

theorem within_sign {message : JSString}
    (hr : ∀ k ∈ [Key.debugMode, .secMsgCount, .verifierKey], F.reads k)
    (hw : F.writes .secMsgCount) : (sign message).Within F.allows := by
  simp only [List.forall_mem_cons, List.not_mem_nil, false_implies, implies_true, and_true] at hr
  refine (within_claim hr.1 hr.2.1 hw).bind fun sequence => ?_
  cases sequence with
  | none => exact (Footprint.console _ _).bind fun _ => trivial
  | some sequence =>
    have htag : ∀ payload, (tag sequence payload).Within F.allows :=
      fun _ => (Footprint.require hr.2.2).bind fun _ => trivial
    exact (htag _).bind fun _ => trivial

end Signer

namespace Scheduler

def webhookOnly : List Key :=
  [.secSealed, .secFailures, .secSeenSids, .secAudit, .webhookToken, .unlockSecret]

abbrev footprint : Footprint := ⟨(· ∉ webhookOnly), (· = .secMsgCount), fun _ => True⟩

theorem within_dailyRun : dailyRun.Within footprint.allows := by
  refine (Footprint.validate (by decide)).bind fun _ =>
    (Watchlist.within_isPaused (by decide)).bind fun paused => ?_
  split_ifs
  · exact Footprint.console _ _
  · exact (Watchlist.within_tickers (by decide)).bind fun tickers =>
      (PriceService.within_quotesFor tickers (by decide) fun _ _ => trivial).bind fun _ =>
        (Footprint.consoleIf _ _ _).bind fun _ => (Footprint.eval _).bind fun _ =>
          (Signer.within_sign (by decide) rfl).bind fun _ =>
            (SmsService.within_send (by decide) fun _ _ => trivial).bind fun _ => trivial

theorem within_runDailyAlert : runDailyAlert.Within footprint.allows :=
  within_dailyRun.catchWith fun _ => (Footprint.console _ _).bind fun _ => trivial

end Scheduler
end Spazito
