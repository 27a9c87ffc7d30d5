import Spazito.GateCourse
import Spazito.WebhookReplies

set_option autoImplicit false

/-!
# What a reply owes to the text

Requests that differ in their bodies only are compared in two runs, of the gate and of the command.
-/
namespace Spazito
open Ecma Script

def Parameters.request (params : Parameters) (body : Option JSString) : Option WebhookEvent :=
  some ⟨some { params with body }⟩

section Echo

variable [Platform] {w : World} {params : Parameters} {body body₁ body₂ : Option JSString}

/-! ## The gate reads the body for the phrase only -/

namespace SecurityGate

/-- An unlock attempt, once its phrase is compared. -/
def afterPhrase (params : Parameters) (secretOk : Bool) : Action Bool := do
  let tokenOk ← matchesToken params
  let fromOk ← matchesRecipient params
  if !(secretOk && tokenOk && fromOk) then return false
  else if ← SecurityVault.checkAndRecordSid (Value.ofOption params.messageSid) then return false
  else if !(← SecurityVault.unsealBot params.sender) then return false
  else
    console .log (js "SecurityGate: unlock accepted — the bot is re-armed.")
    return true

theorem tryUnseal_eq (params : Parameters) : tryUnseal params =
    let intent := CommandParser.parse (Value.ofOption params.body)
    if intent.type ≠ .unlock ∨ intent.arg.getD [] = [] then .ret false
    else (Config.require .unlockSecret).bind fun secret =>
      afterPhrase params (SecureCompare.equals (.str (intent.arg.getD [])) (.str secret)) := rfl

theorem afterPhrase_wrong (params : Parameters) (w : World) :
    ((afterPhrase params false).run host w).outcome ≠ .ok true := by
  intro h
  obtain ⟨tokenOk, -, h⟩ := (Prog.outcome_bind host).mp h
  obtain ⟨fromOk, -, h⟩ := (Prog.outcome_bind host).mp h
  rw [Bool.false_and, Bool.false_and, if_pos (Bool.not_false)] at h
  cases h

theorem run_tryUnseal_right (h : ((tryUnseal params).run host w).outcome = .ok true) :
    (tryUnseal params).run host w =
      ((Config.require .unlockSecret).bind fun _ => afterPhrase params true).run host w := by
  rw [tryUnseal_eq] at h ⊢
  dsimp only at h ⊢
  split_ifs at h ⊢ with hi
  · cases h
  · obtain ⟨secret, hsecret, h⟩ := (Prog.outcome_bind host).mp h
    rw [Prog.run_bind_known hsecret]
    cases hphrase : SecureCompare.equals (.str ((CommandParser.parse
        (Value.ofOption params.body)).arg.getD [])) (.str secret) with
    | false =>
      rw [hphrase] at h
      exact absurd h (afterPhrase_wrong _ _)
    | true => rfl

theorem run_authorize (e : Option WebhookEvent) (w : World) : (authorize e).run host w =
    let r := (afterFlag (paramsOf e) (decide (w.store .secSealed = some (js "true")))).run host w
    ⟨r.outcome, r.state, .op (.getProperty .secSealed) :: r.performed⟩ := rfl

theorem run_afterFlag_sealed {d : Decision}
    (h : ((afterFlag params true).run host w).outcome = .ok d) (hallowed : d.allowed = true) :
    (afterFlag params true).run host w =
      (((Config.require .unlockSecret).bind fun _ => afterPhrase params true).bind fun _ =>
        SecurityVault.resetFailures.bind fun _ => .ret ⟨true, false⟩).run host w := by
  rw [afterFlag, if_pos rfl, Prog.bind_eq] at h ⊢
  obtain ⟨ok, hok, h⟩ := (Prog.outcome_bind host).mp h
  cases ok with
  | false =>
    rw [if_neg Bool.false_ne_true] at h
    cases h
    cases hallowed
  | true =>
    have hright := run_tryUnseal_right hok
    rw [Prog.run_bind_known hok, Prog.run_bind, hright, ← Prog.run_bind]
    rfl

theorem run_authorize_body (h₁ : Allowed (params.request body₁) w)
    (h₂ : Allowed (params.request body₂) w) :
    (authorize (params.request body₁)).run host w = (authorize (params.request body₂)).run host w := by
  obtain ⟨d₁, hd₁, hallowed₁⟩ := h₁
  obtain ⟨d₂, hd₂, hallowed₂⟩ := h₂
  rw [run_authorize] at hd₁ hd₂ ⊢
  rw [run_authorize]
  cases hflag : decide (w.store .secSealed = some (js "true")) with
  | false => rfl
  | true =>
    rw [hflag] at hd₁ hd₂
    dsimp only
    rw [run_afterFlag_sealed hd₁ hallowed₁, run_afterFlag_sealed hd₂ hallowed₂]
    rfl

end SecurityGate

/-! ## The commands read the argument for its normal form only -/

namespace CommandHandler

/-- What may be shown of an argument that is no ticker. -/
def shown (arg : Option JSString) : JSString := ((arg.getD []).filter Replies.isEchoUnit).take 12

def refusal (fragment : JSString) : JSString :=
  js "\"" ++ fragment ++ js "\" doesn't look like a ticker symbol, so nothing was changed. " ++
  js "Try something like \"add TSLA\" or \"remove TSLA\"."

abbrev IsTicker (arg : Option JSString) : Prop := Tickers.isValid (argValue arg) = .ok true

/-- Two arguments that no reply tells apart. -/
inductive SameArg (a b : Option JSString) : Prop
  | ticker (ha : IsTicker a) (hb : IsTicker b)
      (h : Tickers.normalize (argValue a) = Tickers.normalize (argValue b))
  | noTicker (ha : ¬ IsTicker a) (hb : ¬ IsTicker b) (h : shown a = shown b)

abbrev TakesTicker (type : CommandParser.CommandType) : Prop := type = .add ∨ type = .remove

/-- Two intents that no reply tells apart. -/
structure Alike (i j : CommandParser.Intent) : Prop where
  type : i.type = j.type
  arg : ¬ TakesTicker i.type ∨ SameArg i.arg j.arg

variable {a b arg : Option JSString} {intent i j : CommandParser.Intent}

omit [Platform] in
theorem echo_eq_shown (raw : Option JSString) : Replies.echo raw = shown raw := by
  rw [Replies.echo, Regex.replaceAll_unit]
  simp [shown]

omit [Platform] in
theorem invalidTicker_eq (raw : Option JSString) : Replies.invalidTicker raw = refusal (shown raw) := by
  rw [Replies.invalidTicker, echo_eq_shown]
  rfl

omit [Platform] in
theorem isValid_noTicker (h : ¬ IsTicker arg) : Tickers.isValid (argValue arg) = .ok false := by
  obtain ⟨valid, hvalid⟩ := isValid_argValue arg
  cases valid with
  | false => exact hvalid
  | true => exact absurd hvalid h

theorem add_sameArg (h : SameArg a b) : add a = add b := by
  unfold add
  cases h with
  | ticker ha hb h =>
    rw [ha, hb, h]
    rfl
  | noTicker ha hb h =>
    rw [isValid_noTicker ha, isValid_noTicker hb, invalidTicker_eq, invalidTicker_eq, h]
    rfl

theorem remove_sameArg (h : SameArg a b) : remove a = remove b := by
  unfold remove Watchlist.remove
  cases h with
  | ticker ha hb h =>
    rw [ha, hb, h]
    rfl
  | noTicker ha hb h =>
    rw [isValid_noTicker ha, isValid_noTicker hb, invalidTicker_eq, invalidTicker_eq, h]
    rfl

theorem commands_alike (h : Alike i j) : commands i = commands j := by
  obtain ⟨htype, harg⟩ := h
  unfold commands
  rw [← htype]
  cases hi : i.type with
  | add => exact add_sameArg (harg.resolve_left fun hno => hno (.inl hi))
  | remove => exact remove_sameArg (harg.resolve_left fun hno => hno (.inr hi))
  | pause | resume | list | help | log | unlock => rfl

theorem exec_reply_noTicker (v : World) (htype : TakesTicker intent.type)
    (harg : ¬ IsTicker intent.arg) :
    (reply intent).exec host v = (.ok (.invalidTicker intent.arg), v) := by
  have hfalse := isValid_noTicker harg
  unfold reply
  obtain hadd | hremove := htype
  · rw [hadd]
    dsimp only
    rw [addReply, hfalse]
    rfl
  · rw [hremove]
    dsimp only
    rw [removeReply, hfalse]
    rfl

theorem exec_reply_unlock (v : World) (htype : intent.type = .unlock) :
    (reply intent).exec host v = (.ok .unlocked, v) := by
  unfold reply
  rw [htype]
  rfl

/-! ## Replies -/

theorem answerWith_alike {e₁ e₂ : Option WebhookEvent}
    (h : Alike (CommandParser.parse (bodyOf e₁)) (CommandParser.parse (bodyOf e₂)))
    (send : JSString → Action SmsService.Outcome) : answerWith send e₁ = answerWith send e₂ := by
  unfold answerWith
  rw [commands_alike h]

theorem run_doPostWith_alike (h₁ : Allowed (params.request body₁) w)
    (h₂ : Allowed (params.request body₂) w)
    (h : Alike (CommandParser.parse (bodyOf (params.request body₁)))
      (CommandParser.parse (bodyOf (params.request body₂))))
    (send : JSString → Action SmsService.Outcome) :
    (doPostWith (params.request body₁) send).run host w =
      (doPostWith (params.request body₂) send).run host w := by
  unfold doPostWith handleWith
  rw [Prog.tryCatch_eq, Prog.tryCatch_eq, Prog.run_catchWith, Prog.run_catchWith, answerWith_alike h]
  simp only [Prog.bind_eq, Prog.run_bind, SecurityGate.run_authorize_body h₁ h₂]

theorem configured_gate {s : Store} (hc : Configured s) (e : Option WebhookEvent) (env : Env) :
    Configured ((SecurityGate.authorize e).run host ⟨s, env⟩).state.store :=
  hc.of_frame (by decide) fun _ hk => Footprint.unchanged (SecurityGate.within_authorize e) hk ⟨s, env⟩

/-- **No text rides back out.** Of two allowed requests that differ in their bodies, the runs are one
as soon as the intents are alike; an argument that is no ticker is refused around a short fragment,
and the reply to an unlock is fixed. -/
theorem no_echo {s : Store} (hc : Configured s) (env : Env) (params : Parameters)
    (body₁ body₂ : Option JSString) (h₁ : Allowed (params.request body₁) ⟨s, env⟩)
    (h₂ : Allowed (params.request body₂) ⟨s, env⟩) :
    let i₁ := CommandParser.parse (bodyOf (params.request body₁))
    let i₂ := CommandParser.parse (bodyOf (params.request body₂))
    (Alike i₁ i₂ → ∀ send, (doPostWith (params.request body₁) send).run host ⟨s, env⟩ =
      (doPostWith (params.request body₂) send).run host ⟨s, env⟩) ∧
    (TakesTicker i₁.type → ¬ IsTicker i₁.arg → ∃ fragment t,
      Prog.CallsOnce host (doPostWith (params.request body₁)) ⟨s, env⟩ (refusal fragment) t emptyOk ∧
        fragment.length ≤ 12 ∧ ∀ u ∈ fragment, Replies.isEchoUnit u = true) ∧
    (i₁.type = .unlock → ∃ t, Prog.CallsOnce host (doPostWith (params.request body₁)) ⟨s, env⟩
      Replies.unlocked t emptyOk) := by
  intro i₁ i₂
  have hgate := configured_gate hc (params.request body₁) env
  refine ⟨run_doPostWith_alike h₁ h₂, fun htype harg => ?_, fun htype => ?_⟩
  · have hcall := callsOnce_reply h₁ hgate (exec_reply_noTicker _ htype harg) rfl
    obtain ⟨hshort, hunits⟩ := Replies.echo_safe i₁.arg
    rw [echo_eq_shown] at hshort hunits
    rw [invalidTicker_eq] at hcall
    exact ⟨_, _, hcall, hshort, hunits⟩
  · exact ⟨_, callsOnce_reply h₁ hgate (exec_reply_unlock _ htype) rfl⟩

end CommandHandler
end Echo

section
open AppsScript

def recipientFields : Parameters := ⟨some (js "token"), some (js "+15550199"), none, some (js "SM1")⟩

theorem allowed_remove_b :
    Allowed (recipientFields.request (some (js "remove <b>"))) ⟨sampleStore, sampleEnv⟩ :=
  ⟨⟨true, false⟩, by decide +kernel, rfl⟩

theorem allowed_remove_B :
    Allowed (recipientFields.request (some (js "Remove ((B!"))) ⟨sampleStore, sampleEnv⟩ :=
  ⟨⟨true, false⟩, by decide +kernel, rfl⟩

theorem CommandHandler.no_echo_markup :
    (doPost (recipientFields.request (some (js "remove <b>")))).run host ⟨sampleStore, sampleEnv⟩ =
      (doPost (recipientFields.request (some (js "Remove ((B!")))).run host
        ⟨sampleStore, sampleEnv⟩ := by
  have halike := (no_echo (s := sampleStore) (by decide) sampleEnv recipientFields _ _
    allowed_remove_b allowed_remove_B).1
  refine halike ⟨by decide, .inr (.noTicker ?_ ?_ ?_)⟩ SmsService.send
  · decide +kernel
  · decide +kernel
  · decide +kernel

end
end Spazito
