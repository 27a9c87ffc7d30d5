import Spazito.VaultAudit
import Spazito.WebhookReply

set_option autoImplicit false

/-!
# The stores that runs lead to

A fresh installation, then requests and daily runs one after another, with whatever the world outside
answers; and what holds of every such store.
-/
namespace Spazito
open Ecma Script

def ownKeys : List Key :=
  [.watchlist, .paused, .secMsgCount, .secFailures, .secSealed, .secSeenSids, .secAudit]

/-- Configured in full, and nothing stored yet. -/
structure Installed (s : Store) : Prop where
  configured : Configured s
  unset : ∀ k ∈ ownKeys, s k = none

section Runs

variable [Platform]

/-- The stores after runs whose environments satisfy `P`. -/
inductive Reachable (P : Env → Prop) (s₀ : Store) : Store → Prop
  | start : Reachable P s₀ s₀
  | doPost {s : Store} (e : Option WebhookEvent) {env : Env} (before : Reachable P s₀ s)
      (henv : P env) : Reachable P s₀ ((CommandHandler.doPost e).run host ⟨s, env⟩).state.store
  | runDailyAlert {s : Store} {env : Env} (before : Reachable P s₀ s) (henv : P env) :
      Reachable P s₀ (Scheduler.runDailyAlert.run host ⟨s, env⟩).state.store

namespace CommandHandler

abbrev idle : Footprint := ⟨fun _ => True, fun _ => False, fun _ => True⟩

theorem within_idle_send (text : JSString) : (SmsService.send text).Within idle.allows :=
  SmsService.within_send (fun _ _ => trivial) fun _ _ => trivial

theorem answer_eq (e : Option WebhookEvent) : answer e = Config.validateForWebhook.bind fun _ =>
    (reply (CommandParser.parse (bodyOf e))).bind fun r => (say r).bind fun text =>
      (SmsService.send text).bind fun _ => .ret () := by
  unfold answer
  simp only [Prog.bind_eq, commands_eq, Prog.bind_assoc]
  rfl

theorem maintains_doPost {I : Store → Prop} {e : Option WebhookEvent}
    (hgate : Maintains I (SecurityGate.authorize e))
    (hreply : Maintains I (reply (CommandParser.parse (bodyOf e)))) : Maintains I (doPost e) := by
  have hidle {α : Type} {p : Action α} (hp : p.Within idle.allows) : Maintains I p :=
    Footprint.maintains hp fun s t hs hst => by
      rwa [show t = s from funext fun k => hst k id]
  have hanswer : Maintains I (answer e) := by
    rw [answer_eq]
    exact (hidle (Footprint.validate fun _ _ => trivial)).bind fun _ => hreply.bind fun r =>
      (hidle (Footprint.eval _)).bind fun text => (hidle (within_idle_send text)).bind fun _ =>
        .ret fun _ h => h
  refine Prog.Triple.catchWith (hgate.bind fun auth => ?_) fun err =>
    (hidle (Footprint.console _ _)).bind fun _ => .ret fun _ h => h
  split_ifs
  · exact (hidle (within_idle_send _)).bind fun _ => .ret fun _ h => h
  · exact .ret fun _ h => h
  · exact hanswer.bind fun _ => .ret fun _ h => h

end CommandHandler

/-! ## What holds of them -/

/-- Nothing but its own properties has changed, and these hold what the program has written. -/
structure Sound (s₀ s : Store) : Prop where
  frame : ∀ k ∉ ownKeys, s k = s₀ k
  stored : Watchlist.Stored s
  audited : Audited s

variable {s₀ s : Store} {P : Env → Prop}

omit [Platform] in
theorem Installed.sound (h : Installed s₀) : Sound s₀ s₀ where
  frame := fun _ _ => rfl
  stored := ⟨.initial, Watchlist.represents_initial (h.unset _ (by decide)) (h.unset _ (by decide))⟩
  audited := .inl (h.unset _ (by decide))

theorem Sound.doPost (h : Sound s₀ s) (e : Option WebhookEvent) (env : Env) :
    Sound s₀ ((CommandHandler.doPost e).run host ⟨s, env⟩).state.store := by
  have hgate := SecurityGate.within_authorize e
  have hreply := CommandHandler.within_reply_any (CommandParser.parse (CommandHandler.bodyOf e))
  have hframe : Maintains (fun t => ∀ k ∉ ownKeys, t k = s₀ k) (CommandHandler.doPost e) := by
    refine CommandHandler.maintains_doPost (Footprint.maintains hgate fun t u ht htu k hk => ?_)
      (Footprint.maintains hreply fun t u ht htu k hk => ?_)
    · rw [htu k fun hw => hk ?_, ht k hk]
      have hsub : ∀ k ∈ SecurityGate.securityKeys, k ∈ ownKeys := by decide
      exact hsub k hw
    · rw [htu k fun hw => hk ?_, ht k hk]
      have hsub : ∀ k ∈ [Key.watchlist, .paused], k ∈ ownKeys := by decide
      exact hsub k hw
  have hstored : Maintains Watchlist.Stored (CommandHandler.doPost e) :=
    CommandHandler.maintains_doPost
      (Footprint.maintains hgate fun t u ht htu =>
        Watchlist.stored_congr ht (htu _ (by decide)) (htu _ (by decide)))
      (CommandHandler.maintains_reply _)
  have haudited : Maintains Audited (CommandHandler.doPost e) :=
    CommandHandler.maintains_doPost (SecurityGate.maintains_authorize e)
      (Footprint.maintains hreply fun t u ht htu => audited_congr ht (htu _ (by decide)))
  exact ⟨hframe.state (s := ⟨s, env⟩) h.frame, hstored.state (s := ⟨s, env⟩) h.stored,
    haudited.state (s := ⟨s, env⟩) h.audited⟩

theorem Sound.runDailyAlert (h : Sound s₀ s) (env : Env) :
    Sound s₀ (Scheduler.runDailyAlert.run host ⟨s, env⟩).state.store := by
  have hsame (k : Key) (hk : k ≠ .secMsgCount) :
      (Scheduler.runDailyAlert.run host ⟨s, env⟩).state.store k = s k :=
    Footprint.unchanged Scheduler.within_runDailyAlert hk ⟨s, env⟩
  refine ⟨fun k hk => ?_, Watchlist.stored_congr h.stored (hsame _ (by decide)) (hsame _ (by decide)),
    audited_congr h.audited (hsame _ (by decide))⟩
  rw [hsame k fun hcount => hk (by rw [hcount]; decide), h.frame k hk]

theorem Reachable.sound (h₀ : Installed s₀) (h : Reachable P s₀ s) : Sound s₀ s := by
  induction h with
  | start => exact h₀.sound
  | doPost e _ _ ih => exact ih.doPost e _
  | runDailyAlert _ _ ih => exact ih.runDailyAlert _

omit [Platform] in
theorem Sound.configured (h : Sound s₀ s) (h₀ : Configured s₀) : Configured s :=
  h₀.of_frame (by decide) h.frame

end Runs
end Spazito
