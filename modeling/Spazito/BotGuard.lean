import Spazito.AuditTrail
import Spazito.BotState
import Spazito.ScriptChronicle
import Spazito.ShellLocks

set_option autoImplicit false

/-!
# Who may change the bot, and when

One execution is a webhook request or a daily run. What each may write, after what it has written
before, and what it may ask of the network.
-/
namespace Spazito
open Ecma Script

/-! ## What the network calls do besides -/

section Quiet

theorem quiet_sleep (ms : ℕ) : Quiet (sleep ms) := quiet_op (by simp [writes])

theorem quiet_validate (keys : List Key) : Quiet (Config.validate keys) := by
  have hmissing : Quiet (Config.missing keys) := by
    induction keys with
    | nil => exact quiet_ret _
    | cons k keys ih => exact (quiet_getProperty k).bind fun _ => ih.bind fun _ => quiet_ret _
  refine hmissing.bind fun absent => ?_
  split_ifs <;> trivial

variable [Platform]

theorem quiet_readResponse (response : Response) : Quiet (SmsService.readResponse response) := by
  unfold SmsService.readResponse
  split_ifs
  · split
    · exact quiet_raise _
    · exact (quiet_eval _).bind fun _ => (quiet_console _ _).bind fun _ => quiet_ret _
  · dsimp only
    split_ifs
    · exact (quiet_console _ _).bind fun _ => quiet_ret _
    · exact (quiet_eval _).bind fun _ => (quiet_console _ _).bind fun _ => quiet_ret _

end Quiet

/-! ## The guard -/

inductive Entry
  | doPost (e : Option WebhookEvent)
  | runDailyAlert

def Entry.program [Platform] : Entry → Action (Option JSString)
  | doPost e => do return some (← CommandHandler.doPost e)
  | runDailyAlert => do
    Scheduler.runDailyAlert
    return none

def Recorded (past : List Change) : Prop := ∃ now sid, .record now sid ∈ past

def Change.onVault : Change → Bool
  | .countFailure | .zeroFailures | .trip | .reopen | .record _ _ | .audit _ => true
  | .add _ | .remove _ | .setPaused _ | .claim _ => false

/-- A request that the gate has let in, before its command has changed anything. -/
structure Admitted (past : List Change) : Prop where
  recorded : Recorded past
  vault : ∀ c ∈ past, c.onVault = true

theorem admitted_record (now : Time) (sid : JSString) : Admitted [.record now sid] where
  recorded := ⟨now, sid, List.mem_singleton_self _⟩
  vault := by
    intro c hc
    rw [List.mem_singleton.mp hc]
    rfl

theorem Admitted.snoc {past : List Change} (h : Admitted past) {c : Change} (hc : c.onVault = true) :
    Admitted (past ++ [c]) where
  recorded := by
    obtain ⟨now, sid, hmem⟩ := h.recorded
    exact ⟨now, sid, List.mem_append_left _ hmem⟩
  vault := by
    intro c' hc'
    rcases List.mem_append.mp hc' with hc' | hc'
    · exact h.vault c' hc'
    · rw [List.mem_singleton.mp hc']
      exact hc

def intentOf (e : Option WebhookEvent) : CommandParser.Intent :=
  CommandParser.parse (CommandHandler.bodyOf e)

section Guard

variable [Platform] (s₀ : Store)

/-- The lines that a request may add to the audit. -/
def Notes (e : Option WebhookEvent) (past : List Change) (entry : AuditEntry) : Prop :=
  let q := SecurityGate.showingOf (SecurityGate.paramsOf e) s₀
  (∃ now, entry = SecurityVault.entryOf (s₀.secret .verifierKey) now entry.k
      (SecurityGate.paramsOf e).sender) ∧
    (entry.k = js "rejected" ∧ past = [.countFailure] ∨
      entry.k = js "sealed" ∧ (∃ first, past = [.countFailure, .audit first, .trip]) ∨
      entry.k = js "replay" ∧ q.tokenOk = true ∧ q.fromOk = true ∧ past = [] ∨
      entry.k = js "unsealed" ∧ ∃ now sid, past = [.record now sid, .reopen, .zeroFailures])

/-- What an execution may change after its own changes so far. -/
def Permits : Entry → List Change → Change → Prop
  | .runDailyAlert, past, c => past = [] ∧ ∃ n, c = .claim n
  | .doPost e, past, c =>
    let q := SecurityGate.showingOf (SecurityGate.paramsOf e) s₀
    match c with
    | .countFailure => q.tokenOk = true ∧ q.fromOk = false ∧ past = []
    | .trip => ∃ entry, past = [.countFailure, .audit entry]
    | .record _ sid => q.tokenOk = true ∧ q.fromOk = true ∧ q.sid = some sid ∧ past = []
    | .reopen => q.unlocks = true ∧ ∃ now sid, past = [.record now sid]
    | .zeroFailures => Admitted past
    | .audit entry => Notes s₀ e past entry
    | .add t => Admitted past ∧ (intentOf e).type = .add ∧
        Tickers.normalize (CommandHandler.argValue (intentOf e).arg) = .ok t
    | .remove t => Admitted past ∧ (intentOf e).type = .remove ∧
        Tickers.normalize (CommandHandler.argValue (intentOf e).arg) = .ok t
    | .setPaused paused => Admitted past ∧ (intentOf e).type = if paused then .pause else .resume
    | .claim _ => False

omit [Platform] in
def PriceRequest (ticker : JSString) (r : Request) : Prop :=
  ∃ url, PriceService.url ticker (s₀.secret .alphaVantageKey) = .ok url ∧ r = ⟨.get, url, [], []⟩

/-- The user that a text is sent as: the API key, or else the account. -/
def twilioUser : JSString :=
  if Config.isMissing (s₀ .twilioApiKeySid) then s₀.secret .twilioSid else s₀.secret .twilioApiKeySid

/-- The request that sends a text. -/
def TextRequest (text : JSString) (r : Request) : Prop :=
  ∃ url, SmsService.url (s₀.secret .twilioSid) = .ok url ∧ r = ⟨.post, url,
    [(js "To", s₀.secret .recipientNumber), (js "From", s₀.secret .twilioFromNumber), (js "Body", text)],
    [(js "Authorization", js "Basic " ++
      Platform.base64Encode (twilioUser s₀ ++ js ":" ++ s₀.secret .twilioAuthToken))]⟩

/-- What an execution may ask of the network after its own changes so far. -/
def Asks (entry : Entry) (past : List Change) (r : Request) : Prop :=
  match entry with
  | .runDailyAlert => (∃ t, Tickers.Canonical t ∧ PriceRequest s₀ t r) ∨
      ∃ text, TextRequest s₀ text r
  | .doPost e => (∃ t, Tickers.normalize (CommandHandler.argValue (intentOf e).arg) = .ok t ∧
        Tickers.Canonical t ∧ PriceRequest s₀ t r ∧ Recorded past ∧ (intentOf e).type = .add) ∨
      ∃ text, TextRequest s₀ text r ∧
        (Recorded past ∨ text = Replies.sealedNotice ∧ .trip ∈ past)

omit [Platform] in
def Wrote : (o : Op) → o.Ret → Prop
  | .setProperty _ _, .ok _ => True
  | _, _ => False

variable {ι : Type} (entry : ι → Entry)

def botGuard : Guard GAS ι Store Change where
  effect := storeEffect True
  inv := fun s => (∀ k ∉ ownKeys, s k = s₀ k) ∧ ∃ b : Bot, b.Represents s
  changes := Wrote
  does := Bot.Does
  permits := fun i => Permits s₀ (entry i)
  outside := fun i past o =>
    match o with
    | .setProperty _ _ => False
    | .fetch r => Asks s₀ (entry i) past r
    | _ => True
  inside := fun o =>
    match o with
    | .fetch _ | .sleep _ => False
    | _ => True
  idle := by
    intro i past o r hout
    cases o with
    | setProperty k v => exact hout.elim
    | _ => exact id

/-! ## Rules for the calls of a script -/

variable {s₀ entry} {i : ι} {past : List Change} {α β : Type} {p : Action α}

theorem obeys_quiet {F : Footprint} (hp : Quiet p) (hF : p.Within F.allows)
    (hfetch : ∀ r, F.fetches r → Asks s₀ (entry i) past r) :
    p.Obeys (botGuard s₀ entry) i (fun _ past' => past' = past) past none := by
  refine Prog.Within.obeys ((Prog.Within.and hp hF).mono ?_)
  rintro c ⟨⟨o, rfl, ho⟩, hallows⟩
  refine ⟨o, rfl, ?_, fun d r d' heff => funext fun k =>
    storeEffect_frame (i := i) heff fun v hv => ho ⟨k, v, hv⟩⟩
  cases o with
  | setProperty k v => exact ho ⟨k, v, rfl⟩
  | fetch r => exact hfetch r hallows
  | _ => trivial

theorem obeys_readOnly (hp : Quiet p) (hF : p.Within Footprint.readOnly.allows) :
    p.Obeys (botGuard s₀ entry) i (fun _ past' => past' = past) past none :=
  obeys_quiet hp hF fun _ h => h.elim

omit [Platform] in
/-- Reads of such properties, and log lines. -/
def Looks (K : Key → Prop) (p : Action α) : Prop := p.Within fun c : Cmd GAS =>
  (∃ k, K k ∧ c = .op (.getProperty k)) ∨ ∃ level text, c = .op (.console level text)

theorem obeys_looks (hp : Looks (· ∉ ownKeys) p) (env : Env) :
    p.Obeys (botGuard s₀ entry) i
      (fun x past' => x = (p.exec host ⟨s₀, env⟩).1 ∧ past' = past) past none := by
  induction p with
  | ret a => exact ⟨rfl, rfl⟩
  | raise e => exact ⟨rfl, rfl⟩
  | perform c k ih =>
    obtain ⟨hc, hk⟩ := hp
    rcases hc with ⟨key, hkey, rfl⟩ | ⟨level, text, rfl⟩
    · refine ⟨trivial, ?_⟩
      rintro d r d' ⟨hframe, -⟩ ⟨rfl, rfl⟩
      refine ⟨rfl, ?_⟩
      rw [hframe key hkey]
      exact ih _ (hk _)
    · refine ⟨trivial, fun d r d' _ heff => ⟨heff, ?_⟩⟩
      exact ih _ (hk _)

theorem inside_looks (hp : Looks (fun _ => True) p) (s : Store) (env : Env) :
    p.ObeysInside (botGuard s₀ entry) i
      (fun x past' s' => x = (p.exec host ⟨s, env⟩).1 ∧ past' = past ∧ s' = s) past s := by
  induction p generalizing past with
  | ret a => exact ⟨rfl, rfl, rfl⟩
  | raise e => exact ⟨rfl, rfl, rfl⟩
  | perform c k ih =>
    obtain ⟨hc, hk⟩ := hp
    rcases hc with ⟨key, -, rfl⟩ | ⟨level, text, rfl⟩
    · refine ⟨trivial, ?_⟩
      rintro r d' ⟨rfl, rfl⟩
      refine ⟨[], .nothing id, ?_⟩
      rw [List.append_nil]
      exact ih _ (hk _)
    · refine ⟨trivial, fun r d' heff => ⟨[], ?_, ?_⟩⟩
      · rw [show d' = s from heff]
        exact .nothing id
      · rw [show d' = s from heff, List.append_nil]
        exact ih _ (hk _)

/-! The same for a program with its rest. -/

variable {f : α → Action β} {s : Store}

theorem then_quiet {F : Footprint} {Q : Except JSError β → List Change → Prop} (hp : Quiet p)
    (hF : p.Within F.allows) (hfetch : ∀ r, F.fetches r → Asks s₀ (entry i) past r)
    (hf : ∀ a, (f a).Obeys (botGuard s₀ entry) i Q past none) (he : ∀ e, Q (.error e) past) :
    (p.bind f).Obeys (botGuard s₀ entry) i Q past none := by
  refine (obeys_quiet hp hF hfetch).bind ?_ ?_
  · rintro a _ rfl
    exact hf a
  · rintro e _ rfl
    exact he e

theorem then_readOnly {Q : Except JSError β → List Change → Prop} (hp : Quiet p)
    (hF : p.Within Footprint.readOnly.allows)
    (hf : ∀ a, (f a).Obeys (botGuard s₀ entry) i Q past none) (he : ∀ e, Q (.error e) past) :
    (p.bind f).Obeys (botGuard s₀ entry) i Q past none :=
  then_quiet hp hF (fun _ h => h.elim) hf he

theorem then_fetch {r : Request} {g : Response → Action β} {Q : Except JSError β → List Change → Prop}
    (hasks : Asks s₀ (entry i) past r)
    (hg : ∀ response, (g response).Obeys (botGuard s₀ entry) i Q past none)
    (he : ∀ e, Q (.error e) past) :
    ((fetch r).bind g).Obeys (botGuard s₀ entry) i Q past none := by
  refine ⟨hasks, fun s x s' _ heff => ⟨heff, ?_⟩⟩
  cases x with
  | ok response => exact hg response
  | error e => exact he e

theorem then_looks {Q : Except JSError β → List Change → Prop} (hp : Looks (· ∉ ownKeys) p)
    (env : Env) (h : ((Prog.orRaise (p.exec host ⟨s₀, env⟩).1).bind f).Obeys (botGuard s₀ entry) i Q
      past none) : (p.bind f).Obeys (botGuard s₀ entry) i Q past none := by
  refine (obeys_looks hp env).bind ?_ ?_
  · rintro a _ ⟨ha, rfl⟩
    rwa [← ha] at h
  · rintro e _ ⟨he, rfl⟩
    rwa [← he] at h

theorem inside_then_looks {Q : Except JSError β → List Change → Store → Prop}
    (hp : Looks (fun _ => True) p) (env : Env)
    (h : ((Prog.orRaise (p.exec host ⟨s, env⟩).1).bind f).ObeysInside (botGuard s₀ entry) i Q past s) :
    (p.bind f).ObeysInside (botGuard s₀ entry) i Q past s := by
  refine (inside_looks hp s env).bind ?_ ?_
  · rintro a _ _ ⟨ha, rfl, rfl⟩
    rwa [← ha] at h
  · rintro e _ _ ⟨he, rfl, rfl⟩
    rwa [← he] at h

theorem inside_then_write {k : Key} {v : JSString} {c : Change} {g : Unit → Action β}
    {Q : Except JSError β → List Change → Store → Prop} (hk : k ∈ ownKeys)
    (hinv : (botGuard s₀ entry).inv s) (hpermits : Permits s₀ (entry i) past c)
    (hdoes : Bot.Does c s (s.set k v))
    (hg : (botGuard s₀ entry).inv (s.set k v) →
      (g ()).ObeysInside (botGuard s₀ entry) i Q (past ++ [c]) (s.set k v))
    (he : ∀ e, Q (.error e) past s) :
    ((setProperty k v).bind g).ObeysInside (botGuard s₀ entry) i Q past s := by
  refine ⟨trivial, ?_⟩
  rintro r s' (⟨rfl, rfl⟩ | ⟨-, ⟨e, rfl⟩, rfl⟩)
  · obtain ⟨hframe, b, hb⟩ := hinv
    obtain ⟨b', -, hb'⟩ := hdoes b hb
    have hinv' : (botGuard s₀ entry).inv (s.set k v) :=
      ⟨fun k' hk' => (Store.set_ne s v (by rintro rfl; exact hk' hk)).trans (hframe k' hk'), b', hb'⟩
    exact ⟨[c], .change trivial hpermits hdoes hinv', hg hinv'⟩
  · refine ⟨[], .nothing id, ?_⟩
    rw [List.append_nil]
    exact he e

theorem inside_then_now {g : Time → Action β} {Q : Except JSError β → List Change → Store → Prop}
    (hg : ∀ time, (g time).ObeysInside (botGuard s₀ entry) i Q past s) :
    (now.bind g).ObeysInside (botGuard s₀ entry) i Q past s := by
  refine ⟨trivial, fun time s' heff => ⟨[], ?_, ?_⟩⟩
  · rw [show s' = s from heff]
    exact .nothing id
  · rw [show s' = s from heff, List.append_nil]
    exact hg time

theorem obeys_withScriptLock {n : ℕ} {mutate onBusy : Action α}
    {Q : Except JSError α → List Change → Prop}
    (hm : ∀ s, (botGuard s₀ entry).inv s →
      mutate.ObeysInside (botGuard s₀ entry) i (fun x past' _ => Q x past') past s)
    (hb : onBusy.Obeys (botGuard s₀ entry) i Q past none) :
    (Locks.withScriptLock n mutate onBusy).Obeys (botGuard s₀ entry) i Q past none := by
  rw [withScriptLock_eq]
  exact Prog.obeys_locked hm ⟨trivial, fun d r d' _ heff => ⟨heff, hb⟩⟩

end Guard
end Spazito
