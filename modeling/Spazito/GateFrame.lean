import Spazito.ShellFootprints

set_option autoImplicit false

/-!
# What a webhook request can touch

A refused request runs the gate and at most sends the sealed notice; an allowed one has shown the
token, the sender and a fresh MessageSid.
-/
namespace Spazito
open Ecma Script

variable [Platform]

/-! ## The reads of the gate -/

namespace SecurityGate

omit [Platform] in
@[simp] theorem run_isSealed (w : World) : SecurityVault.isSealed.run host w =
    ⟨.ok (decide (w.store .secSealed = some (js "true"))), w, [.op (.getProperty .secSealed)]⟩ := by
  simp [SecurityVault.isSealed, Prog.run_bind]

omit [Platform] in
theorem run_matchesToken (params : Parameters) (w : World) : (matchesToken params).run host w =
    ⟨if Config.isMissing (w.store .webhookToken) then .error (Config.missingError [.webhookToken])
      else .ok (decide (params.k.getD [] = w.store.secret .webhookToken)), w,
      [.op (.getProperty .webhookToken)]⟩ := by
  cases h : Config.isMissing (w.store .webhookToken) <;>
    simp [matchesToken, Prog.run_bind, run_require, h, SecureCompare.equals_str]

omit [Platform] in
theorem run_matchesRecipient (params : Parameters) (w : World) :
    (matchesRecipient params).run host w =
    ⟨if Config.isMissing (w.store .recipientNumber)
      then .error (Config.missingError [.recipientNumber])
      else .ok (decide (params.sender.getD [] = w.store.secret .recipientNumber)), w,
      [.op (.getProperty .recipientNumber)]⟩ := by
  cases h : Config.isMissing (w.store .recipientNumber) <;>
    simp [matchesRecipient, Prog.run_bind, run_require, h, SecureCompare.equals_str]

/-- A run of the gate that changes nothing, asks for nothing and refuses. -/
structure Silent (w : World) (r : Result GAS JSError Decision World) : Prop where
  state : r.state = w
  refused : ∀ d, r.outcome = .ok d → d = ⟨false, false⟩
  quiet : ∀ c ∈ r.performed, Footprint.readOnly.allows c

theorem tryUnseal_silent (params : Parameters) (w : World)
    (h : params.k.getD [] ≠ w.store.secret .webhookToken ∨
      params.sender.getD [] ≠ w.store.secret .recipientNumber) :
    ((tryUnseal params).run host w).state = w ∧
      (∀ b, ((tryUnseal params).run host w).outcome = .ok b → b = false) ∧
      ∀ c ∈ ((tryUnseal params).run host w).performed, Footprint.readOnly.allows c := by
  by_cases hi : (CommandParser.parse (Value.ofOption params.body)).type ≠ .unlock ∨
      (CommandParser.parse (Value.ofOption params.body)).arg.getD [] = []
  · simp [tryUnseal, hi]
  · have hne : ∀ a : Prop, ((a ∨ ¬ params.k.getD [] = w.store.secret .webhookToken) ∨
        ¬ params.sender.getD [] = w.store.secret .recipientNumber) = True :=
      fun a => eq_true (or_assoc.mpr (.inr h))
    cases hu : Config.isMissing (w.store .unlockSecret) <;>
      cases ht : Config.isMissing (w.store .webhookToken) <;>
        cases hr : Config.isMissing (w.store .recipientNumber) <;>
          simp [tryUnseal, hi, Prog.run_bind, run_require, run_matchesToken, run_matchesRecipient,
            hu, ht, hr, hne]

theorem authorize_silent (e : Option WebhookEvent) (w : World)
    (h : (paramsOf e).k.getD [] ≠ w.store.secret .webhookToken ∨
      (w.store .secSealed = some (js "true") ∧
        (paramsOf e).sender.getD [] ≠ w.store.secret .recipientNumber)) :
    Silent w ((authorize e).run host w) := by
  by_cases hs : w.store .secSealed = some (js "true")
  · obtain ⟨hstate, hno, hquiet⟩ := tryUnseal_silent (paramsOf e) w
      (h.imp_right fun h => h.2)
    have hrun : (authorize e).run host w =
        (⟨.ok true, w, [.op (.getProperty .secSealed)]⟩ : Result GAS JSError Bool World).andThen
          fun _ w => ((tryUnseal (paramsOf e)).run host w).andThen fun ok w' =>
            (if ok then SecurityVault.resetFailures.bind fun _ => .ret ⟨true, false⟩
              else .ret ⟨false, false⟩ : Action Decision).run host w' := by
      simp [authorize, Prog.run_bind, hs]
    rw [hrun, Result.andThen_ok]
    cases hr : (tryUnseal (paramsOf e)).run host w with
    | mk outcome state performed =>
      rw [hr] at hstate hno hquiet
      cases outcome with
      | error err => exact ⟨hstate, by simp, by simpa using hquiet⟩
      | ok b =>
        obtain rfl := hno b rfl
        exact ⟨hstate, by simp, by simpa using hquiet⟩
  · have hk : (paramsOf e).k.getD [] ≠ w.store.secret .webhookToken :=
      h.resolve_right fun h => hs h.1
    cases ht : Config.isMissing (w.store .webhookToken) <;>
      cases hr : Config.isMissing (w.store .recipientNumber) <;>
        constructor <;>
          simp [authorize, hs, Prog.run_bind, run_matchesToken, run_matchesRecipient, ht, hr, hk]

end SecurityGate

/-! ## The replay set -/

/-- The array a JSON property holds; anything else counts as empty. -/
def Store.array (s : Store) (k : Key) : List Value :=
  match s k with
  | none => []
  | some raw =>
    match Value.parse raw with
    | some (.arr xs) => xs
    | _ => []

/-- An unexpired entry of the stored set carries this sid. -/
def Store.InReplaySet (s : Store) (now : Time) (sid : JSString) : Prop :=
  ∃ entry ∈ s.array .secSeenSids, SecurityVault.isUnexpired now entry = .ok true ∧
    Value.property entry (js "sid") = .ok (.str sid)

namespace SecurityVault

omit [Platform] in
theorem run_readJson (key : Key) (w : World) :
    ∃ t, (readJson key).run host w = ⟨.ok (w.store.array key), w, t⟩ := by
  cases h : w.store key with
  | none => exact ⟨_, by simp [readJson, Prog.run_bind, h, Store.array]; rfl⟩
  | some raw =>
    cases hp : Value.parse raw with
    | none => exact ⟨_, by simp [readJson, Prog.run_bind, h, hp, Store.array]; rfl⟩
    | some v => cases v <;> exact ⟨_, by simp [readJson, Prog.run_bind, h, hp, Store.array]; rfl⟩

omit [Platform] in
theorem keepFresh_cons {now : Time} {entry : Value} {seen fresh : List Value}
    (h : keepFresh now (entry :: seen) = .ok fresh) : ∃ keep rest,
      isUnexpired now entry = .ok keep ∧ keepFresh now seen = .ok rest ∧
        fresh = if keep then entry :: rest else rest := by
  obtain ⟨keep, hk, h⟩ := bind_eq_ok.mp h
  obtain ⟨rest, hr, h⟩ := bind_eq_ok.mp h
  cases h
  exact ⟨keep, rest, hk, hr, rfl⟩

omit [Platform] in
theorem mem_of_keepFresh {now : Time} {seen fresh : List Value} (h : keepFresh now seen = .ok fresh) :
    ∀ entry ∈ seen, isUnexpired now entry = .ok true → entry ∈ fresh := by
  induction seen generalizing fresh with
  | nil => simp
  | cons x seen ih =>
    obtain ⟨keep, rest, hk, hr, rfl⟩ := keepFresh_cons h
    intro entry hmem hun
    rcases List.mem_cons.mp hmem with rfl | hmem
    · rw [hk] at hun
      cases hun
      simp
    · cases keep <;> simp [ih hr entry hmem hun]

omit [Platform] in
theorem hasSid_false {sid : JSString} {entries : List Value} (h : hasSid sid entries = .ok false) :
    ∀ entry ∈ entries, Value.property entry (js "sid") ≠ .ok (.str sid) := by
  induction entries with
  | nil => simp
  | cons x entries ih =>
    obtain ⟨v, hv, h⟩ := bind_eq_ok.mp h
    split_ifs at h with hs
    · cases h
    · refine List.forall_mem_cons.mpr ⟨fun hx => hs ?_, ih h⟩
      rw [hv] at hx
      cases hx
      simp [isString]

theorem checkAndRecordSid_passes {sid : Value} {w : World}
    (h : ((checkAndRecordSid sid).run host w).outcome = .ok false) :
    ∃ s, sid = .str s ∧ trim s ≠ [] ∧ ¬ w.store.InReplaySet (w.env.clock 0) (trim s) := by
  cases sid with
  | str s =>
    by_cases hblank : trim s = []
    · simp [checkAndRecordSid, hblank] at h
    · refine ⟨s, rfl, hblank, ?_⟩
      obtain ⟨t, hread⟩ := run_readJson .secSeenSids ⟨w.store, w.env.afterLock.afterClock⟩
      cases hl : w.env.lock 0 with
      | false => simp [checkAndRecordSid, hblank, run_withScriptLock, hl] at h
      | true =>
        have hclock : w.env.afterLock.clock 0 = w.env.clock 0 := rfl
        simp only [checkAndRecordSid, hblank, ↓reduceIte, run_withScriptLock, hl, Prog.bind_eq,
          Prog.run_bind, run_now, Result.andThen_ok, hread, hclock] at h
        cases hk : keepFresh (w.env.clock 0) (w.store.array .secSeenSids) with
        | error f => simp [hk] at h
        | ok fresh =>
          cases hs : hasSid (trim s) fresh with
          | error f => simp [hk, hs] at h
          | ok b =>
            cases b with
            | true => simp [hk, hs] at h
            | false =>
              rintro ⟨entry, hmem, hun, hsid⟩
              exact hasSid_false hs entry (mem_of_keepFresh hk entry hmem hun) hsid
  | _ => simp [checkAndRecordSid] at h

end SecurityVault

/-! ## Allowed and refused requests -/

/-- One request with what the world outside answers to it. -/
structure Visit where
  event : Option WebhookEvent
  env : Env

def Allowed (e : Option WebhookEvent) (w : World) : Prop :=
  ∃ d, ((SecurityGate.authorize e).run host w).outcome = .ok d ∧ d.allowed = true

namespace SecurityGate

theorem tryUnseal_sid {params : Parameters} {w : World}
    (h : ((tryUnseal params).run host w).outcome = .ok true) :
    ((SecurityVault.checkAndRecordSid (Value.ofOption params.messageSid)).run host w).outcome =
      .ok false := by
  unfold tryUnseal at h
  dsimp only at h
  split_ifs at h with hi
  · cases h
  · obtain ⟨secret, -, h⟩ := (Prog.outcome_bind host).mp h
    obtain ⟨tokenOk, -, h⟩ := (Prog.outcome_bind host).mp h
    obtain ⟨fromOk, -, h⟩ := (Prog.outcome_bind host).mp h
    simp only [run_require, run_matchesToken, run_matchesRecipient] at h
    split_ifs at h with hall
    · cases h
    · obtain ⟨replayed, hsid, h⟩ := (Prog.outcome_bind host).mp h
      split_ifs at h with hr
      · cases h
      · rwa [Bool.eq_false_of_not_eq_true hr] at hsid

/-- An allowed request has the token and the recipient's number, and a sid that is neither blank nor
in the replay set. -/
theorem allowed_conditions {e : Option WebhookEvent} {w : World} (h : Allowed e w) :
    (paramsOf e).k.getD [] = w.store.secret .webhookToken ∧
    (paramsOf e).sender.getD [] = w.store.secret .recipientNumber ∧
    ∃ s, (paramsOf e).messageSid = some s ∧ trim s ≠ [] ∧
      ¬ w.store.InReplaySet (w.env.clock 0) (trim s) := by
  obtain ⟨d, hd, hallowed⟩ := h
  have hnotsilent : ¬ Silent w ((authorize e).run host w) := by
    intro hs
    rw [hs.refused d hd] at hallowed
    cases hallowed
  have htoken : (paramsOf e).k.getD [] = w.store.secret .webhookToken := by
    by_contra hk
    exact hnotsilent (authorize_silent e w (.inl hk))
  have hsid : ((SecurityVault.checkAndRecordSid (Value.ofOption (paramsOf e).messageSid)).run host
      w).outcome = .ok false ∧
      (paramsOf e).sender.getD [] = w.store.secret .recipientNumber := by
    obtain ⟨flag, hflag, hd⟩ := (Prog.outcome_bind host).mp hd
    rw [run_isSealed] at hflag hd
    split_ifs at hd with hs
    · have hsealed : w.store .secSealed = some (js "true") := by
        cases hflag
        simpa using hs
      refine ⟨?_, ?_⟩
      · obtain ⟨ok, hok, hd⟩ := (Prog.outcome_bind host).mp hd
        split_ifs at hd with hb
        · rw [hb] at hok
          exact tryUnseal_sid hok
        · cases hd
          cases hallowed
      · by_contra hf
        exact hnotsilent (authorize_silent e w (.inr ⟨hsealed, hf⟩))
    · obtain ⟨tokenOk, ht, hd⟩ := (Prog.outcome_bind host).mp hd
      obtain ⟨fromOk, hf, hd⟩ := (Prog.outcome_bind host).mp hd
      simp only [run_matchesToken, run_matchesRecipient] at hf hd
      have hno : ∀ (p : Action SecurityVault.Failure) (v : World),
          ((p.bind fun f => .ret (⟨false, f.justSealed⟩ : Decision)).run host v).outcome ≠ .ok d := by
        intro p v hp
        obtain ⟨f, -, hp⟩ := (Prog.outcome_bind host).mp hp
        cases hp
        cases hallowed
      split_ifs at hd with hboth htok
      · obtain ⟨-, -, hd⟩ := (Prog.outcome_bind host).mp hd
        exact absurd hd (hno _ _)
      · obtain ⟨-, -, hd⟩ := (Prog.outcome_bind host).mp hd
        cases hd
        cases hallowed
      · obtain ⟨replayed, hsid, hd⟩ := (Prog.outcome_bind host).mp hd
        split_ifs at hd with hr
        · obtain ⟨-, -, hd⟩ := (Prog.outcome_bind host).mp hd
          obtain ⟨-, -, hd⟩ := (Prog.outcome_bind host).mp hd
          cases hd
          cases hallowed
        · rw [Bool.eq_false_of_not_eq_true hr] at hsid
          refine ⟨hsid, ?_⟩
          simp only [Bool.not_eq_true', Bool.and_eq_false_iff, not_or, Bool.not_eq_false] at hboth
          rw [hboth.2] at hf
          split_ifs at hf with hm
          simpa using hf
  obtain ⟨s, hs, hblank, hfresh⟩ := SecurityVault.checkAndRecordSid_passes hsid.1
  refine ⟨htoken, hsid.2, s, ?_, hblank, hfresh⟩
  cases hm : (paramsOf e).messageSid with
  | none => rw [hm] at hs; cases hs
  | some m => rw [hm] at hs; cases hs; rfl

def probe (params : Parameters) : Action Decision := do
  let _ ← SecurityVault.isSealed
  let _ ← matchesToken params
  let _ ← matchesRecipient params
  console .warn (js "Webhook request rejected by the security gate (silent 200 returned).")
  let failure ← SecurityVault.registerFailure params.sender
  return ⟨false, failure.justSealed⟩

abbrev probeFootprint : Footprint :=
  ⟨fun _ => True, (· ∈ [Key.secFailures, .secAudit, .secSealed]), fun _ => False⟩

theorem within_probe (params : Parameters) : (probe params).Within probeFootprint.allows :=
  (SecurityVault.within_isSealed trivial).bind fun _ => (within_matchesToken trivial).bind fun _ =>
    (within_matchesRecipient trivial).bind fun _ => (Footprint.console _ _).bind fun _ =>
      (SecurityVault.within_registerFailure (fun _ _ => trivial) (by decide)).bind fun _ => trivial

theorem authorize_probe (e : Option WebhookEvent) (w : World)
    (hs : w.store .secSealed ≠ some (js "true"))
    (hk : (paramsOf e).k.getD [] = w.store.secret .webhookToken)
    (hf : (paramsOf e).sender.getD [] ≠ w.store.secret .recipientNumber) :
    (authorize e).run host w = (probe (paramsOf e)).run host w := by
  cases ht : Config.isMissing (w.store .webhookToken) <;>
    cases hr : Config.isMissing (w.store .recipientNumber) <;>
      simp [authorize, probe, hs, Prog.run_bind, run_matchesToken, run_matchesRecipient, ht, hr, hk, hf]

end SecurityGate

namespace CommandHandler

/-- A refused request ends with the gate, but for a last part that sends the sealed notice when the
request has just sealed the bot. -/
theorem doPost_refused {e : Option WebhookEvent} {w : World} (h : ¬ Allowed e w) {F : Footprint}
    (hreads : ∀ k, F.reads k)
    (hnotice : ∀ d, ((SecurityGate.authorize e).run host w).outcome = .ok d → d.justSealed = true →
      ∀ r, SmsService.Carries Replies.sealedNotice r → F.fetches r) :
    ∃ q : Action JSString, q.Within F.allows ∧
      (doPost e).run host w =
        let g := (SecurityGate.authorize e).run host w
        let r := q.run host g.state
        ⟨r.outcome, r.state, g.performed ++ r.performed⟩ := by
  let last (err : JSError) : Action JSString := do
    console .error (js "doPost failed: " ++ Redactor.scrubText err.message)
    return emptyOk
  have hlast : ∀ err, (last err).Within F.allows := fun err =>
    (Footprint.console _ _).bind fun _ => trivial
  have hrun : (doPost e).run host w = (((SecurityGate.authorize e).run host w).andThen
      fun auth v => (if !auth.allowed then
          if auth.justSealed then (SmsService.send Replies.sealedNotice).bind fun _ => .ret emptyOk
          else .ret emptyOk
        else (answer e).bind fun _ => .ret emptyOk : Action JSString).run host v).orElse
      fun err v => (last err).run host v := by
    rw [← Prog.run_bind, ← Prog.run_catchWith]
    rfl
  cases hg : (SecurityGate.authorize e).run host w with
  | mk outcome state performed =>
    rw [hg] at hrun hnotice
    cases outcome with
    | error err => exact ⟨last err, hlast err, by rw [hrun]; rfl⟩
    | ok d =>
      have hd : d.allowed = false := by
        by_contra ha
        exact h ⟨d, by rw [hg], by simpa using ha⟩
      by_cases hj : d.justSealed = true
      · have hsend : ((SmsService.send Replies.sealedNotice).bind fun _ => .ret emptyOk :
            Action JSString).Within F.allows :=
          (SmsService.within_send (fun k _ => hreads k) (hnotice d rfl hj)).bind
            fun _ => Prog.within_ret emptyOk
        refine ⟨_, hsend.catchWith hlast, ?_⟩
        rw [hrun]
        dsimp only
        rw [Prog.run_catchWith]
        simp only [Result.andThen_ok, hd, hj, Bool.not_false, ↓reduceIte]
        cases hq : ((SmsService.send Replies.sealedNotice).bind fun _ => .ret emptyOk :
            Action JSString).run host state with
        | mk o v t => cases o <;> simp
      · refine ⟨.ret emptyOk, trivial, ?_⟩
        rw [hrun]
        simp [hd, hj]

end CommandHandler
end Spazito
