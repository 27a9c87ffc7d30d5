import Spazito.BotPool
import Spazito.ScriptTwins

set_option autoImplicit false

/-!
# Where the credentials go

Two deployments that differ in their credentials only. Whatever they see of requests, answers and each
other, their executions do the same, up to the fields of a request in which the credentials belong.
-/
namespace Spazito
open Ecma Script

/-- The credentials that a request carries beside its URL and its text, and those that are only
compared. -/
def hiddenKeys : List Key := [.twilioAuthToken, .twilioApiKeySid, .twilioFromNumber, .recipientNumber,
  .webhookToken, .unlockSecret]

/-- A request without the header values and without the payload fields other than the text. -/
def Request.sight (r : Request) : Request where
  method := r.method
  url := r.url
  payload := r.payload.map fun field => (field.1, if field.1 = js "Body" then field.2 else [])
  headers := r.headers.map fun field => (field.1, [])

def Op.sight : Op → Op
  | .fetch r => .fetch r.sight
  | o => o

def readSight (k : Key) (v : Option JSString) : Option JSString := if k ∈ hiddenKeys then none else v

/-- What can be seen of a step: not the value of a credential that is read. -/
def eventSight {ι : Type} : Event GAS ι → Event GAS ι
  | .op i (.fetch r) x => .op i (.fetch r.sight) x
  | .op i (.getProperty k) v => .op i (.getProperty k) (readSight k v)
  | e => e

/-- The same deployment with other credentials: what was missing is missing. -/
structure Rekeyed (s s' : Store) : Prop where
  same : ∀ k ∉ hiddenKeys, s' k = s k
  missing : ∀ k, Config.isMissing (s' k) = Config.isMissing (s k)

/-- The two values that are read: the same, or those of the two deployments. -/
def ReadAlike (s s' : Store) (k : Key) (v v' : Option JSString) : Prop :=
  if k ∈ hiddenKeys then v = s k ∧ v' = s' k else v = v'

/-- Each deployment reads its own credentials; everything else is answered alike. -/
def AnswersAlike (s s' : Store) : (o o' : Op) → o.Ret → o'.Ret → Prop
  | .getProperty k, .getProperty _, v, v' => ReadAlike s s' k v v'
  | .setProperty _ _, .setProperty _ _, r, r' => r = r'
  | .fetch _, .fetch _, r, r' => r = r'
  | .now, .now, t, t' => t = t'
  | .sleep _, .sleep _, _, _ => True
  | .console _ _, .console _ _, _, _ => True
  | _, _, _, _ => False

def credentials (s s' : Store) : Coupling GAS where
  pair o o' := o.sight = o'.sight ∧ ∀ k v, o = .setProperty k v → k ∉ hiddenKeys
  alike := AnswersAlike s s'

abbrev openFootprint : Footprint := ⟨(· ∉ hiddenKeys), (· ∉ hiddenKeys), fun _ => True⟩

abbrev TwinActions {α : Type} (s s' : Store) (Q : α → α → Prop) (p q : Action α) : Prop :=
  Prog.Twins (credentials s s') Q p q

section Twins

variable {s s' : Store} {α β : Type}

theorem sameCmd_of_open (c : Cmd GAS) (hc : openFootprint.allows c) : (credentials s s').SameCmd c := by
  cases c with
  | op o =>
    cases o with
    | getProperty k =>
      refine ⟨⟨rfl, fun k' v h => by cases h⟩, fun v v' h => ?_⟩
      change ReadAlike s s' k v v' at h
      unfold ReadAlike at h
      rwa [if_neg (show k ∉ hiddenKeys from hc)] at h
    | setProperty k v =>
      refine ⟨⟨rfl, fun k' v' h => ?_⟩, fun r r' h => h⟩
      cases h
      exact hc
    | fetch r => exact ⟨⟨rfl, fun k' v h => by cases h⟩, fun r r' h => h⟩
    | now => exact ⟨⟨rfl, fun k' v h => by cases h⟩, fun r r' h => h⟩
    | sleep _ | console _ _ => exact ⟨⟨rfl, fun k' v h => by cases h⟩, fun _ _ _ => rfl⟩
  | waitLock _ | releaseLock => trivial

theorem twins_open {p : Action α} (hp : p.Within openFootprint.allows) : TwinActions s s' Eq p p :=
  (hp.mono sameCmd_of_open).twins

theorem open_bind {Q : β → β → Prop} {p : Action α} {f g : α → Action β}
    (hp : p.Within openFootprint.allows) (hfg : ∀ a, TwinActions s s' Q (f a) (g a)) :
    TwinActions s s' Q (p.bind f) (p.bind g) :=
  (hp.mono sameCmd_of_open).twins_bind hfg

theorem same_bind {Q : β → β → Prop} {p q : Action α} {f g : α → Action β}
    (hp : TwinActions s s' Eq p q) (hfg : ∀ a, TwinActions s s' Q (f a) (g a)) :
    TwinActions s s' Q (p.bind f) (q.bind g) := by
  refine hp.bind fun a a' h => ?_
  rw [h]
  exact hfg a'

/-! ## Reading a credential -/

theorem twins_getProperty (k : Key) :
    TwinActions s s' (ReadAlike s s' k) (getProperty k) (getProperty k) :=
  .op ⟨rfl, fun k' v h => by cases h⟩ fun v v' h => .ret h

theorem ReadAlike.isMissing (h : Rekeyed s s') {k : Key} {v v' : Option JSString}
    (hv : ReadAlike s s' k v v') : Config.isMissing v = Config.isMissing v' := by
  unfold ReadAlike at hv
  split_ifs at hv
  · rw [hv.1, hv.2, h.missing k]
  · rw [hv]

theorem twins_require (h : Rekeyed s s') {k : Key} (hk : k ∈ hiddenKeys) :
    TwinActions s s' (fun a a' => a = s.secret k ∧ a' = s'.secret k) (Config.require k)
      (Config.require k) := by
  refine (twins_getProperty k).bind fun v v' hv => ?_
  have hmissing := hv.isMissing h
  rw [ReadAlike, if_pos hk] at hv
  dsimp only
  rw [hmissing]
  split_ifs
  · exact .raise _
  · refine .ret ⟨?_, ?_⟩
    · rw [hv.1, Store.secret]
    · rw [hv.2, Store.secret]

theorem twins_optional (h : Rekeyed s s') (k : Key) :
    TwinActions s s' (fun a a' => a = none ↔ a' = none) (Config.optional k) (Config.optional k) := by
  refine (twins_getProperty k).bind fun v v' hv => ?_
  have hmissing := hv.isMissing h
  refine .ret ?_
  rw [hmissing]
  split_ifs <;> simp

theorem twins_missing (h : Rekeyed s s') (keys : List Key) :
    TwinActions s s' Eq (Config.missing keys) (Config.missing keys) := by
  induction keys with
  | nil => exact .ret rfl
  | cons k keys ih =>
    refine (twins_getProperty k).bind fun v v' hv => same_bind ih fun rest => .ret ?_
    rw [hv.isMissing h]

theorem twins_validate (h : Rekeyed s s') (keys : List Key) :
    TwinActions s s' Eq (Config.validate keys) (Config.validate keys) := by
  refine same_bind (twins_missing h keys) fun absent => ?_
  split_ifs
  · exact .raise _
  · exact .ret rfl

end Twins

/-! ## The text message -/

namespace SmsService

variable [Platform] {s s' : Store}

theorem twins_deliver (h : Rekeyed s s') (message : JSString) :
    TwinActions s s' Eq (deliver message) (deliver message) := by
  refine open_bind (Footprint.require (by decide)) fun sid => (twins_require h (by decide)).bind
    fun secret secret' _ => (twins_optional h _).bind fun user user' huser => ?_
  have hwarn : (user = none) = (user' = none) := propext huser
  simp only [hwarn]
  refine open_bind (Footprint.consoleIf _ _ _) fun _ => open_bind (Footprint.eval _) fun u =>
    (twins_require h (by decide)).bind fun mobile mobile' _ =>
      (twins_require h (by decide)).bind fun number number' _ => ?_
  have hfetch (r r' : Request) (hr : r.sight = r'.sight) :
      TwinActions s s' Eq (fetch r) (fetch r') :=
    .op ⟨congrArg Op.fetch hr, fun k v h => by cases h⟩ fun x x' hx => by
      cases (show x = x' from hx)
      exact twins_open (Prog.within_orRaise x)
  refine same_bind (hfetch _ _ ?_) fun response => twins_open (within_readResponse response)
  have hto : js "To" ≠ js "Body" := by decide
  have hfrom : js "From" ≠ js "Body" := by decide
  simp [Request.sight, hto, hfrom]

theorem twins_send (h : Rekeyed s s') (message : JSString) :
    TwinActions s s' Eq (send message) (send message) := by
  refine Prog.Twins.catchWith (open_bind (Footprint.isDebugMode (by decide)) fun debug => ?_) fun e =>
    twins_open ((Footprint.console _ _).bind fun _ => trivial)
  split_ifs
  · exact twins_open ((Footprint.console _ _).bind fun _ => trivial)
  · exact twins_deliver h message

end SmsService

/-! ## The gate -/

/-- What a request shows is right in both deployments, or wrong in both. -/
structure SameGuess (s s' : Store) (params : Parameters) : Prop where
  token : params.k.getD [] = s.secret .webhookToken ↔ params.k.getD [] = s'.secret .webhookToken
  sender : params.sender.getD [] = s.secret .recipientNumber ↔
    params.sender.getD [] = s'.secret .recipientNumber
  phrase : ∀ arg, CommandParser.parse (Value.ofOption params.body) = ⟨.unlock, some arg⟩ →
    (arg = s.secret .unlockSecret ↔ arg = s'.secret .unlockSecret)

namespace SecurityGate

variable {s s' : Store} {params : Parameters}

theorem equals_alike {a b b' : JSString} (hb : a = b ↔ a = b') :
    SecureCompare.equals (.str a) (.str b) = SecureCompare.equals (.str a) (.str b') := by
  rw [SecureCompare.equals_str, SecureCompare.equals_str]
  exact decide_eq_decide.mpr hb

theorem twins_matchesToken (h : Rekeyed s s') (hguess : SameGuess s s' params) :
    TwinActions s s' Eq (matchesToken params) (matchesToken params) := by
  refine (twins_require h (by decide)).bind fun a a' ha => .ret ?_
  rw [ha.1, ha.2]
  exact equals_alike hguess.token

theorem twins_matchesRecipient (h : Rekeyed s s') (hguess : SameGuess s s' params) :
    TwinActions s s' Eq (matchesRecipient params) (matchesRecipient params) := by
  refine (twins_require h (by decide)).bind fun a a' ha => .ret ?_
  rw [ha.1, ha.2]
  exact equals_alike hguess.sender

variable [Platform]

theorem twins_tryUnseal (h : Rekeyed s s') (hguess : SameGuess s s' params) :
    TwinActions s s' Eq (tryUnseal params) (tryUnseal params) := by
  unfold tryUnseal
  dsimp only
  split_ifs with hshape
  · exact .ret rfl
  · obtain ⟨htype, harg⟩ := not_or.mp hshape
    have hphrase (a a' : JSString) (ha : a = s.secret .unlockSecret ∧ a' = s'.secret .unlockSecret) :
        SecureCompare.equals (.str ((CommandParser.parse (Value.ofOption params.body)).arg.getD []))
          (.str a) =
        SecureCompare.equals (.str ((CommandParser.parse (Value.ofOption params.body)).arg.getD []))
          (.str a') := by
      rw [ha.1, ha.2]
      refine equals_alike (hguess.phrase _ ?_)
      generalize CommandParser.parse (Value.ofOption params.body) = intent at htype harg ⊢
      obtain ⟨type, arg⟩ := intent
      obtain rfl := not_not.mp htype
      cases arg with
      | none => exact (harg rfl).elim
      | some arg => rfl
    refine (twins_require h (by decide)).bind fun a a' ha => ?_
    rw [hphrase a a' ha]
    refine same_bind (twins_matchesToken h hguess) fun tokenOk =>
      same_bind (twins_matchesRecipient h hguess) fun fromOk => twins_open ?_
    split_ifs
    · trivial
    · refine (SecurityVault.within_checkAndRecordSid (by decide) (by decide)).bind fun _ => ?_
      split_ifs
      · trivial
      · refine (SecurityVault.within_unsealBot (by decide) (by decide)).bind fun _ => ?_
        split_ifs
        · trivial
        · exact (Footprint.console _ _).bind fun _ => trivial

theorem twins_authorize (h : Rekeyed s s') (e : Option WebhookEvent)
    (hguess : SameGuess s s' (paramsOf e)) : TwinActions s s' Eq (authorize e) (authorize e) := by
  have hreset : SecurityVault.resetFailures.Within openFootprint.allows :=
    SecurityVault.within_resetFailures (by decide) (by decide)
  refine open_bind (SecurityVault.within_isSealed (by decide)) fun isSealed => ?_
  split_ifs
  · refine same_bind (twins_tryUnseal h hguess) fun done => twins_open ?_
    split_ifs
    · exact hreset.bind fun _ => trivial
    · trivial
  · refine same_bind (twins_matchesToken h hguess) fun tokenOk =>
      same_bind (twins_matchesRecipient h hguess) fun fromOk => twins_open ?_
    split_ifs
    · exact (Footprint.console _ _).bind fun _ =>
        (SecurityVault.within_registerFailure (by decide) (by decide)).bind fun _ => trivial
    · exact (Footprint.console _ _).bind fun _ => trivial
    · refine (SecurityVault.within_checkAndRecordSid (by decide) (by decide)).bind fun _ => ?_
      split_ifs
      · exact (Footprint.console _ _).bind fun _ =>
          (SecurityVault.within_recordAudit (by decide) (by decide)).bind fun _ => trivial
      · exact hreset.bind fun _ => trivial

end SecurityGate

/-! ## The two entry points -/

section Entries

variable [Platform] {s s' : Store}

namespace CommandHandler

theorem twins_doPost (h : Rekeyed s s') (e : Option WebhookEvent)
    (hguess : SameGuess s s' (SecurityGate.paramsOf e)) :
    TwinActions s s' Eq (doPost e) (doPost e) := by
  have hcommands : (reply (CommandParser.parse (bodyOf e))).Within openFootprint.allows :=
    footprint_reply (by decide) (by decide) _ fun _ _ _ => trivial
  have hanswer : TwinActions s s' Eq (answer e) (answer e) := by
    rw [answer_eq]
    exact same_bind (twins_validate h _) fun _ => open_bind hcommands fun r =>
      open_bind (Footprint.eval _) fun text => same_bind (SmsService.twins_send h text) fun _ => .ret rfl
  refine Prog.Twins.catchWith (same_bind (SecurityGate.twins_authorize h e hguess) fun auth => ?_)
    fun err => twins_open ((Footprint.console _ _).bind fun _ => trivial)
  split_ifs
  · exact same_bind (SmsService.twins_send h _) fun _ => .ret rfl
  · exact .ret rfl
  · exact same_bind hanswer fun _ => .ret rfl

end CommandHandler

namespace Scheduler

theorem twins_runDailyAlert (h : Rekeyed s s') : TwinActions s s' Eq runDailyAlert runDailyAlert := by
  refine Prog.Twins.catchWith ?_ fun e => twins_open ((Footprint.console _ _).bind fun _ => trivial)
  refine same_bind (twins_validate h _) fun _ =>
    open_bind (Watchlist.within_isPaused (by decide)) fun paused => ?_
  split_ifs
  · exact twins_open (Footprint.console _ _)
  · exact open_bind (Watchlist.within_tickers (by decide)) fun tickers =>
      open_bind (PriceService.within_quotesFor tickers (by decide) fun _ _ => trivial) fun quotes =>
        open_bind (Footprint.consoleIf _ _ _) fun _ => open_bind (Footprint.eval _) fun message =>
          open_bind (Signer.within_sign (by decide) (by decide)) fun text =>
            same_bind (SmsService.twins_send h text) fun _ => .ret rfl

end Scheduler
/-! ## Any number of executions -/

theorem Entry.twins (h : Rekeyed s s') (entry : Entry)
    (hguess : ∀ e, entry = .doPost e → SameGuess s s' (SecurityGate.paramsOf e)) :
    TwinActions s s' Eq entry.program entry.program := by
  cases entry with
  | doPost e => exact same_bind (CommandHandler.twins_doPost h e (hguess e rfl)) fun _ => .ret rfl
  | runDailyAlert => exact same_bind (Scheduler.twins_runDailyAlert h) fun _ => .ret rfl

omit [Platform] in
/-- The stores in the course of two such runs. -/
structure Parted (s s' d d' : Store) : Prop where
  same : ∀ k ∉ hiddenKeys, d' k = d k
  left : ∀ k ∈ hiddenKeys, d k = s k
  right : ∀ k ∈ hiddenKeys, d' k = s' k

omit [Platform] in
theorem Parted.set {d d' : Store} (h : Parted s s' d d') {k : Key} (hk : k ∉ hiddenKeys) (v : JSString) :
    Parted s s' (d.set k v) (d'.set k v) := by
  have hne {k' : Key} (hk' : k' ∈ hiddenKeys) : k' ≠ k := ne_of_mem_of_not_mem hk' hk
  refine ⟨fun k' hk' => ?_, fun k' hk' => ?_, fun k' hk' => ?_⟩
  · by_cases hsame : k' = k
    · rw [hsame, Store.set_self, Store.set_self]
    · rw [Store.set_ne _ _ hsame, Store.set_ne _ _ hsame, h.same k' hk']
  · rw [Store.set_ne _ _ (hne hk'), h.left k' hk']
  · rw [Store.set_ne _ _ (hne hk'), h.right k' hk']

omit [Platform] in
theorem Parted.answers {ι : Type} {i : ι} {o o' : Op} {d d' e : Store} {r : o.Ret}
    (h : Parted s s' d d') (hpair : (credentials s s').pair o o') (heff : storeEffect True i o d r e) :
    ∃ r' e', storeEffect True i o' d' r' e' ∧ (credentials s s').alike o o' r r' ∧ Parted s s' e e' := by
  obtain ⟨hsight, hwrite⟩ := hpair
  cases o with
  | getProperty k =>
    cases o' <;> cases hsight
    obtain ⟨rfl, rfl⟩ := heff
    refine ⟨d' k, d', ⟨rfl, rfl⟩, ?_, h⟩
    change ReadAlike s s' k (e k) (d' k)
    unfold ReadAlike
    split_ifs with hk
    · exact ⟨h.left k hk, h.right k hk⟩
    · exact (h.same k hk).symm
  | setProperty k v =>
    cases o' <;> cases hsight
    rcases heff with ⟨rfl, rfl⟩ | ⟨-, ⟨err, rfl⟩, rfl⟩
    · exact ⟨.ok (), d'.set k v, .inl ⟨rfl, rfl⟩, rfl, h.set (hwrite k v rfl) v⟩
    · exact ⟨.error err, d', .inr ⟨trivial, ⟨err, rfl⟩, rfl⟩, rfl, h⟩
  | fetch q =>
    cases o' with
    | fetch q' =>
      obtain rfl := heff
      exact ⟨r, d', rfl, rfl, h⟩
    | _ => cases hsight
  | now =>
    cases o' <;> cases hsight
    obtain rfl := heff
    exact ⟨r, d', rfl, rfl, h⟩
  | sleep _ | console _ _ =>
    cases o' <;> cases hsight
    obtain rfl := heff
    exact ⟨r, d', rfl, trivial, h⟩

omit [Platform] in
theorem readSight_alike {k : Key} {v v' : Option JSString} (h : ReadAlike s s' k v v') :
    readSight k v' = readSight k v := by
  unfold ReadAlike at h
  unfold readSight
  split_ifs at h ⊢
  · rfl
  · exact h.symm

omit [Platform] in
theorem eventSight_alike {ι : Type} {x x' : Event GAS ι} (h : Event.Alike (credentials s s') x x') :
    eventSight x' = eventSight x := by
  cases h with
  | @op i o o' r r' ho hr =>
    obtain ⟨hsight, -⟩ := ho
    cases o with
    | getProperty k =>
      cases o' <;> cases hsight
      exact congrArg (Event.op (S := GAS) i (Op.getProperty k)) (readSight_alike hr)
    | fetch q =>
      cases o' with
      | fetch q' =>
        have hq : q.sight = q'.sight := Op.fetch.inj hsight
        have hr' : r = r' := hr
        rw [eventSight, eventSight, hq, hr']
      | _ => cases hsight
    | setProperty _ _ | now =>
      cases o' <;> cases hsight
      have hr' : r = r' := hr
      rw [hr']
    | sleep _ | console _ _ =>
      cases o' <;> cases hsight
      rfl
  | acquired i | timedOut i | released i => rfl

omit [Platform] in
theorem outcome?_twins {ι : Type} {C : Coupling GAS} {L : Store → Store → Prop}
    {p q : Pool GAS JSError (Option JSString) ι Store} (h : Pool.Twins C L Eq p q) (i : ι) :
    q.outcome? i = p.outcome? i := by
  have hi := h.thread i
  unfold Pool.outcome?
  generalize p.thread i = t at hi
  generalize q.thread i = u at hi
  cases hi with
  | ret ha => rw [ha]
  | raise e => rfl
  | op _ _ | waitLock _ _ | releaseLock _ => rfl

/-- **Credentials do not flow.** Take two deployments that differ in the Twilio token, the scoped API
key, the two numbers, the webhook token and the unlock phrase, where each request is right in both or
wrong in both. However webhook requests and daily runs go on at the same time, every run of the one is
a run of the other: the same reads and writes, log lines, waits, requests up to the fields in which the
credentials belong, with the same outcomes and the same store beside the credentials. -/
theorem pool_secrets {ι : Type} [DecidableEq ι] {entry : ι → Entry} (h : Rekeyed s s')
    (hguess : ∀ i e, entry i = .doPost e → SameGuess s s' (SecurityGate.paramsOf e))
    {t : List (Event GAS ι)} {p : Pool GAS JSError (Option JSString) ι Store}
    (hrun : Pool.Course (storeEffect True) (botStart entry s) t p) :
    ∃ t' p', Pool.Course (storeEffect True) (botStart entry s') t' p' ∧
      t'.map eventSight = t.map eventSight ∧ (∀ i, p'.outcome? i = p.outcome? i) ∧
      p'.holder = p.holder ∧ ∀ k ∉ hiddenKeys, p'.data k = p.data k := by
  have hstart : Pool.Twins (credentials s s') (Parted s s') Eq (botStart entry s) (botStart entry s') :=
    ⟨fun i => (entry i).twins h (hguess i), rfl, rfl, h.same, fun _ _ => rfl, fun _ _ => rfl⟩
  have hanswers (i : ι) (o o' : Op) (d d' : Store) (r : o.Ret) (e : Store)
      (hpair : (credentials s s').pair o o') (hd : Parted s s' d d') (heff : storeEffect True i o d r e) :=
    hd.answers hpair heff
  obtain ⟨t', p', hrun', ht, hp⟩ := hrun.twins hanswers hstart
  refine ⟨t', p', hrun', ?_, outcome?_twins hp, hp.holder.symm, hp.data.same⟩
  clear hrun hrun' hp
  induction ht with
  | nil => rfl
  | cons hx _ ih => rw [List.map_cons, List.map_cons, eventSight_alike hx, ih]

end Entries

section
open AppsScript

def rotatedStore : Store :=
  (sampleStore.set .twilioAuthToken (js "rotated")).set .unlockSecret (js "new phrase")

theorem rekeyed_rotatedStore : Rekeyed sampleStore rotatedStore where
  same k hk := by
    have hne {k' : Key} (hk' : k' ∈ hiddenKeys) : k ≠ k' := (ne_of_mem_of_not_mem hk' hk).symm
    rw [rotatedStore, Store.set_ne _ _ (hne (by decide)), Store.set_ne _ _ (hne (by decide))]
  missing k := by cases k <;> decide

theorem pool_secrets_rotated : ∃ t t' p',
    Pool.Course (storeEffect True) (botStart deliveredTwice sampleStore) t turnsPool ∧
    Pool.Course (storeEffect True) (botStart deliveredTwice rotatedStore) t' p' ∧
    t'.map eventSight = t.map eventSight ∧ ∀ i, p'.outcome? i = turnsPool.outcome? i := by
  have hguess (i : Option Bool) (e : Option WebhookEvent) (hi : deliveredTwice i = .doPost e) :
      SameGuess sampleStore rotatedStore (SecurityGate.paramsOf e) := by
    cases i with
    | none => cases hi
    | some b =>
      cases hi
      exact ⟨Iff.rfl, Iff.rfl, fun arg harg => by cases harg⟩
  obtain ⟨t, ht⟩ := Pool.runs_iff_course.mp runs_turnsPool
  obtain ⟨t', p', hrun, hsight, hsame, -⟩ := pool_secrets rekeyed_rotatedStore hguess ht
  exact ⟨t, t', p', ht, hrun, hsight, hsame⟩

end
end Spazito
