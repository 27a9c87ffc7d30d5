import Spazito.AppsScript
import Spazito.GateFrame

set_option autoImplicit false

/-!
# Refused requests: the frame of the webhook, and the daily run that follows

What a request changes is bounded by what it has shown. Security state is all that a refused request
changes, and the daily run reads none of it.
-/
namespace Spazito
open Ecma Script

section Frame

variable [Platform]

namespace CommandHandler

theorem not_allowed_of_silent {e : Option WebhookEvent} {w : World}
    (h : SecurityGate.Silent w ((SecurityGate.authorize e).run host w)) : ¬ Allowed e w := by
  rintro ⟨d, hd, hallowed⟩
  rw [h.refused d hd] at hallowed
  cases hallowed

theorem doPost_silent {e : Option WebhookEvent} {w : World}
    (h : SecurityGate.Silent w ((SecurityGate.authorize e).run host w)) :
    ((doPost e).run host w).state.store = w.store ∧
      ∀ c ∈ ((doPost e).run host w).performed, Footprint.readOnly.allows c := by
  obtain ⟨q, hq, hrun⟩ := doPost_refused (not_allowed_of_silent h) (F := Footprint.readOnly)
    (fun _ => trivial) fun d hd hj => by
      rw [h.refused d hd] at hj
      cases hj
  rw [hrun]
  dsimp only
  rw [h.state]
  constructor
  · funext k
    exact Footprint.unchanged hq id w
  · intro c hc
    rcases List.mem_append.mp hc with hc | hc
    · exact h.quiet c hc
    · exact hq.performed w c hc

theorem doPost_refused_frame {e : Option WebhookEvent} {w : World} (h : ¬ Allowed e w) :
    (∀ k ∉ SecurityGate.securityKeys, ((doPost e).run host w).state.store k = w.store k) ∧
      ∀ r, .op (.fetch r) ∈ ((doPost e).run host w).performed →
        SmsService.Carries Replies.sealedNotice r := by
  obtain ⟨q, hq, hrun⟩ := doPost_refused h
    (F := ⟨fun _ => True, fun _ => False, SmsService.Carries Replies.sealedNotice⟩)
    (fun _ => trivial) fun _ _ _ _ hr => hr
  rw [hrun]
  constructor
  · intro k hk
    exact (Footprint.unchanged hq id _).trans
      (Footprint.unchanged (SecurityGate.within_authorize e) hk w)
  · intro r hr
    rcases List.mem_append.mp hr with hr | hr
    · exact absurd ((SecurityGate.within_authorize e).performed w _ hr) id
    · exact hq.performed _ _ hr

omit [Platform] in
theorem no_requests_of_notice {t : Trace}
    (h : ∀ r, .op (.fetch r) ∈ t → SmsService.Carries Replies.sealedNotice r) :
    PriceService.requests t = [] ∧ ∀ text ∈ SmsService.texts t, text = Replies.sealedNotice := by
  constructor
  · refine PriceService.requests_eq_nil (F := ⟨fun _ => True, fun _ => True,
      SmsService.Carries Replies.sealedNotice⟩) (fun c hc => ?_)
      fun r hr => PriceService.not_asks_of_carries hr
    rcases c with (_ | _ | r | _ | _ | _) | _ | _
    case op.fetch => exact h r hc
    all_goals trivial
  · intro text ht
    obtain ⟨r, hr, -, hbody⟩ := SmsService.mem_texts ht
    rw [(h r hr).2] at hbody
    cases hbody
    rfl

theorem doPost_probe {e : Option WebhookEvent} {w : World}
    (hk : (SecurityGate.paramsOf e).k.getD [] = w.store.secret .webhookToken)
    (hf : (SecurityGate.paramsOf e).sender.getD [] ≠ w.store.secret .recipientNumber) :
    (∀ k ∉ [Key.secFailures, .secAudit, .secSealed],
      ((doPost e).run host w).state.store k = w.store k) ∧
    (w.store .secSealed = some (js "true") → ((doPost e).run host w).state.store = w.store) ∧
    ∀ r, .op (.fetch r) ∈ ((doPost e).run host w).performed →
      SmsService.Carries Replies.sealedNotice r := by
  have hrefused : ¬ Allowed e w := fun h => hf (SecurityGate.allowed_conditions h).2.1
  by_cases hs : w.store .secSealed = some (js "true")
  · have hsilent := doPost_silent (SecurityGate.authorize_silent e w (.inr ⟨hs, hf⟩))
    exact ⟨fun k _ => by rw [hsilent.1], fun _ => hsilent.1,
      fun r hr => absurd (hsilent.2 _ hr) id⟩
  · refine ⟨fun k hk' => ?_, fun h => absurd h hs, (doPost_refused_frame hrefused).2⟩
    obtain ⟨q, hq, hrun⟩ := doPost_refused hrefused
      (F := ⟨fun _ => True, fun _ => False, SmsService.Carries Replies.sealedNotice⟩)
      (fun _ => trivial) fun _ _ _ _ hr => hr
    rw [hrun]
    dsimp only
    rw [SecurityGate.authorize_probe e w hs hk hf]
    exact (Footprint.unchanged hq id _).trans
      (Footprint.unchanged (SecurityGate.within_probe _) hk' w)

/-- What a request may do, by what it has shown: the token, the sender, a fresh MessageSid. -/
theorem doPost_frame (e : Option WebhookEvent) (w : World) :
    let params := SecurityGate.paramsOf e
    let tokenOk := params.k.getD [] = w.store.secret .webhookToken
    let fromOk := params.sender.getD [] = w.store.secret .recipientNumber
    let r := (doPost e).run host w
    (¬ tokenOk → r.state.store = w.store ∧ (∀ k v, .op (.setProperty k v) ∉ r.performed) ∧
      PriceService.requests r.performed = [] ∧ SmsService.texts r.performed = []) ∧
    (tokenOk → ¬ fromOk →
      (∀ k ∉ [Key.secFailures, .secAudit, .secSealed], r.state.store k = w.store k) ∧
      (w.store .secSealed = some (js "true") → r.state.store = w.store) ∧
      PriceService.requests r.performed = [] ∧
      ∀ text ∈ SmsService.texts r.performed, text = Replies.sealedNotice) ∧
    (r.state.store .watchlist ≠ w.store .watchlist ∨ r.state.store .paused ≠ w.store .paused ∨
        PriceService.requests r.performed ≠ [] ∨ Allowed e w ∨
        (∃ text ∈ SmsService.texts r.performed, text ≠ Replies.sealedNotice) →
      tokenOk ∧ fromOk ∧ ∃ s, params.messageSid = some s ∧ trim s ≠ [] ∧
        ¬ w.store.InReplaySet (w.env.clock 0) (trim s)) ∧
    (r.state.store .secSeenSids ≠ w.store .secSeenSids → tokenOk ∧ fromOk) := by
  intro params tokenOk fromOk r
  have hsilent : ¬ tokenOk → r.state.store = w.store ∧
      ∀ c ∈ r.performed, Footprint.readOnly.allows c :=
    fun hk => doPost_silent (SecurityGate.authorize_silent e w (.inl hk))
  refine ⟨fun hk => ?_, fun hk hf => ?_, fun hact => ?_, fun hsids => ?_⟩
  · obtain ⟨hstore, hquiet⟩ := hsilent hk
    have hno : ∀ x, .op (.fetch x) ∈ r.performed → SmsService.Carries Replies.sealedNotice x :=
      fun x hx => absurd (hquiet _ hx) id
    refine ⟨hstore, fun k v hc => hquiet _ hc, (no_requests_of_notice hno).1, ?_⟩
    refine List.eq_nil_iff_forall_not_mem.mpr fun text ht => ?_
    obtain ⟨x, hx, -⟩ := SmsService.mem_texts ht
    exact hquiet _ hx
  · obtain ⟨hkeys, hsealed, hnotice⟩ := doPost_probe hk hf
    exact ⟨hkeys, hsealed, no_requests_of_notice hnotice⟩
  · by_cases hallowed : Allowed e w
    · exact SecurityGate.allowed_conditions hallowed
    · obtain ⟨hkeys, hnotice⟩ := doPost_refused_frame hallowed
      obtain ⟨hrequests, htexts⟩ := no_requests_of_notice hnotice
      rcases hact with h | h | h | h | ⟨text, ht, h⟩
      · exact absurd (hkeys .watchlist (by decide)) h
      · exact absurd (hkeys .paused (by decide)) h
      · exact absurd hrequests h
      · exact absurd h hallowed
      · exact absurd (htexts text ht) h
  · by_contra hboth
    by_cases hk : tokenOk
    · have hf : ¬ fromOk := fun hf => hboth ⟨hk, hf⟩
      exact hsids ((doPost_probe hk hf).1 .secSeenSids (by decide))
    · exact hsids (by rw [(hsilent hk).1])

end CommandHandler

/-! ## The daily run after hostile requests -/

namespace CommandHandler

def afterVisit (s : Store) (v : Visit) : Store := ((doPost v.event).run host ⟨s, v.env⟩).state.store

def NoneAllowed : Store → List Visit → Prop
  | _, [] => True
  | s, v :: vs => ¬ Allowed v.event ⟨s, v.env⟩ ∧ NoneAllowed (afterVisit s v) vs

theorem noneAllowed_unchanged {s : Store} {vs : List Visit} (h : NoneAllowed s vs) :
    ∀ k ∉ SecurityGate.securityKeys, vs.foldl afterVisit s k = s k := by
  induction vs generalizing s with
  | nil => exact fun _ _ => rfl
  | cons v vs ih =>
    intro k hk
    rw [List.foldl_cons, ih h.2 k hk]
    exact (doPost_refused_frame h.1).1 k hk

end CommandHandler

namespace Scheduler

/-- The daily run does and changes the same from both stores. -/
def SameDay (s t : Store) (env : Env) : Prop :=
  let r := runDailyAlert.run host ⟨s, env⟩
  let r' := runDailyAlert.run host ⟨t, env⟩
  r.outcome = r'.outcome ∧ r.performed = r'.performed ∧
    s .secMsgCount = t .secMsgCount ∧ r.state.store .secMsgCount = r'.state.store .secMsgCount

theorem sameDay_of_agree {s t : Store} (h : ∀ k ∉ webhookOnly, s k = t k) (env : Env) :
    SameDay s t env := by
  obtain ⟨hout, hperf, hstore⟩ := Footprint.same_run within_runDailyAlert s t env h
  exact ⟨hout, hperf, h _ (by decide), hstore _ (by decide)⟩

/-- Requests that the gate refuses, in any number, leave the daily run as it would have been; so does
any other change of what only the webhook reads. -/
theorem runDailyAlert_isolated :
    (∀ (s : Store) (vs : List Visit) (env : Env), CommandHandler.NoneAllowed s vs →
      SameDay s (vs.foldl CommandHandler.afterVisit s) env) ∧
    ∀ (s t : Store) (env : Env), (∀ k ∉ webhookOnly, s k = t k) → SameDay s t env := by
  refine ⟨fun s vs env h => sameDay_of_agree (fun k hk => ?_) env,
    fun s t env h => sameDay_of_agree h env⟩
  refine (CommandHandler.noneAllowed_unchanged h k fun hsec => hk ?_).symm
  have hsub : ∀ k ∈ SecurityGate.securityKeys, k ∈ webhookOnly := by decide
  exact hsub k hsec

end Scheduler
end Frame

namespace Scheduler
open AppsScript

theorem runDailyAlert_isolated_sample :
    SameDay sampleStore ([⟨none, sampleEnv⟩].foldl CommandHandler.afterVisit sampleStore) sampleEnv ∧
      SameDay sampleStore (sampleStore.set .webhookToken (js "other")) sampleEnv := by
  refine ⟨runDailyAlert_isolated.1 _ _ _ ⟨fun h => ?_, trivial⟩,
    runDailyAlert_isolated.2 _ _ _ fun k hk => (Store.set_ne _ _ ?_).symm⟩
  · exact absurd (SecurityGate.allowed_conditions h).1 (by decide)
  · rintro rfl
    exact hk (by decide)

end Scheduler
end Spazito
