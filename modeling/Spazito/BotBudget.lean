import Spazito.BotPool
import Spazito.ShellBudgets

set_option autoImplicit false

/-!
# What an execution may use up

The gate leaves more over where it lets a request in, so a request has one budget for all its ways;
with it no interleaving goes on for ever.
-/
namespace Spazito
open Ecma Script

section Budgets

variable {T : Resource → ℕ} [Platform]

namespace SecurityGate

omit [Platform] in
theorem spends_matchesToken (params : Parameters) : Spends T (matchesToken params) (T .calls) :=
  (spends_require _).map _

omit [Platform] in
theorem spends_matchesRecipient (params : Parameters) :
    Spends T (matchesRecipient params) (T .calls) := (spends_require _).map _

def ifTrue (a : ℕ) : Except JSError Bool → ℕ
  | .ok true => a
  | _ => 0

theorem affords_tryUnseal (params : Parameters) {a n : ℕ}
    (hunlock : (CommandParser.parse (Value.ofOption params.body)).type = .unlock →
      19 * T .calls + 4 * T .writes + 10000 * T .lockMs + a ≤ n) :
    (tryUnseal params).Affords (price T) (ifTrue a) n := by
  unfold tryUnseal
  dsimp only
  split_ifs with hother
  · exact Nat.zero_le n
  · have hn := hunlock (by by_contra h; exact hother (.inl h))
    refine ((spends_require _).andThen (m := n - T .calls) (fun secret => ?_) fun _ =>
      Nat.zero_le _).le (by omega)
    refine ((spends_matchesToken _).andThen (m := n - 2 * T .calls) (fun tokenOk => ?_) fun _ =>
      Nat.zero_le _).le (by omega)
    refine ((spends_matchesRecipient _).andThen (m := n - 3 * T .calls) (fun fromOk => ?_) fun _ =>
      Nat.zero_le _).le (by omega)
    split_ifs
    · exact Nat.zero_le _
    · refine ((SecurityVault.spends_checkAndRecordSid _).andThen (fun replayed => ?_)
        (fun _ => Nat.zero_le _)
        (m := 10 * T .calls + 3 * T .writes + 5000 * T .lockMs + a)).le (by omega)
      split_ifs
      · exact Nat.zero_le _
      · refine ((SecurityVault.spends_unsealBot _).andThen (fun unsealed => ?_)
          (fun _ => Nat.zero_le _) (m := T .calls + a)).le (by omega)
        split_ifs
        · exact Nat.zero_le _
        · exact (spends_console _ _).andThen (fun _ => le_rfl) fun _ => Nat.zero_le _

/-- What is left over for the command, or for the notice of a sealing. -/
def leftover (command notice : ℕ) : Except JSError Decision → ℕ
  | .ok ⟨true, _⟩ => command
  | .ok ⟨false, true⟩ => notice
  | _ => 0

theorem affords_authorize (e : Option WebhookEvent) (command notice : ℕ) {n : ℕ}
    (hprobe : 21 * T .calls + 4 * T .writes + 5000 * T .lockMs + notice ≤ n)
    (hreplay : 17 * T .calls + 2 * T .writes + 10000 * T .lockMs ≤ n)
    (hopen : 13 * T .calls + 2 * T .writes + 10000 * T .lockMs + command ≤ n)
    (hunlock : (CommandParser.parse (Value.ofOption (paramsOf e).body)).type = .unlock →
      24 * T .calls + 5 * T .writes + 15000 * T .lockMs + command ≤ n) :
    (authorize e).Affords (price T) (leftover command notice) n := by
  refine (SecurityVault.spends_isSealed.andThen (m := n - T .calls) (fun flag => ?_) fun _ =>
    Nat.zero_le _).le (by omega)
  cases flag with
  | true =>
    let reset := 4 * T .calls + T .writes + 5000 * T .lockMs
    refine (affords_tryUnseal _ (a := reset + command) fun htype => ?_).bind (fun unsealed => ?_)
      fun _ => Nat.zero_le _
    · have hn := hunlock htype
      omega
    · cases unsealed with
      | true => exact SecurityVault.spends_resetFailures.andThen (fun _ => le_rfl) fun _ => Nat.zero_le _
      | false => exact Nat.zero_le _
  | false =>
    refine ((spends_matchesToken _).andThen (m := n - 2 * T .calls) (fun tokenOk => ?_) fun _ =>
      Nat.zero_le _).le (by omega)
    refine ((spends_matchesRecipient _).andThen (m := n - 3 * T .calls) (fun fromOk => ?_) fun _ =>
      Nat.zero_le _).le (by omega)
    cases hboth : tokenOk && fromOk with
    | true =>
      rw [if_neg (by simp)]
      refine ((SecurityVault.spends_checkAndRecordSid _).andThen
        (m := n - (9 * T .calls + T .writes + 5000 * T .lockMs)) (fun replayed => ?_)
        fun _ => Nat.zero_le _).le (by omega)
      cases replayed with
      | true =>
        refine ((spends_console _ _).andThen (m := 7 * T .calls + T .writes + 5000 * T .lockMs)
          (fun _ => ?_) fun _ => Nat.zero_le _).le (by omega)
        exact (SecurityVault.spends_recordAudit _ _).andThen (m := 0) (fun _ => Nat.zero_le _)
          fun _ => Nat.zero_le _
      | false =>
        exact (SecurityVault.spends_resetFailures.andThen (m := command) (fun _ => le_rfl)
          fun _ => Nat.zero_le _).le (by omega)
    | false =>
      rw [if_pos (by simp)]
      refine ((spends_console _ _).andThen (m := n - 4 * T .calls) (fun _ => ?_) fun _ =>
        Nat.zero_le _).le (by omega)
      cases tokenOk with
      | true =>
        refine ((SecurityVault.spends_registerFailure _).andThen (m := notice) (fun failure => ?_)
          fun _ => Nat.zero_le _).le (by omega)
        obtain ⟨flag, tripped⟩ := failure
        cases tripped with
        | true => exact le_rfl
        | false => exact Nat.zero_le _
      | false => exact Nat.zero_le _

end SecurityGate

def amounts (calls writes lockMs sleepMs quotes texts : ℕ) : Resource → ℕ
  | .calls => calls
  | .writes => writes
  | .lockMs => lockMs
  | .sleepMs => sleepMs
  | .quotes => quotes
  | .texts => texts

namespace CommandHandler

/-- What a command uses up before its reply is sent. -/
def commandUse : CommandParser.CommandType → Resource → ℕ
  | .add => amounts 18 1 5000 0 1 0
  | .remove => amounts 6 1 5000 0 0 0
  | .pause | .resume => amounts 3 1 5000 0 0 0
  | .list => amounts 4 0 0 0 0 0
  | .log => amounts 2 0 0 0 0 0
  | .help | .unlock => amounts 0 0 0 0 0 0

theorem spends_add (rawArg : Option JSString) :
    Spends T (add rawArg) (18 * T .calls + T .writes + 5000 * T .lockMs + T .quotes) := by
  refine spends_eval fun valid => ?_
  split_ifs
  · exact Prog.costs_ret _
  · refine spends_eval fun ticker => ((Watchlist.spends_has _).bind
      (m := 15 * T .calls + T .writes + 5000 * T .lockMs + T .quotes) fun tracked => ?_).le (by omega)
    split_ifs
    · exact Prog.costs_ret _
    · refine (Watchlist.spends_isFull.bind
        (m := 12 * T .calls + T .writes + 5000 * T .lockMs + T .quotes) fun full => ?_).le (by omega)
      split_ifs
      · exact Prog.costs_ret _
      · refine ((PriceService.spends_quotesFor _).bind
          (m := 6 * T .calls + T .writes + 5000 * T .lockMs) fun quotes => ?_).le
          (by rw [List.length_singleton, Nat.min_eq_left (by omega), Nat.sub_self]; omega)
        cases quotes with
        | nil => exact Prog.costs_raise _
        | cons quote rest =>
          dsimp only
          split
          · exact Prog.costs_ret _
          · exact Prog.costs_ret _
          · refine ((Watchlist.spends_add _).bind (m := 0) fun outcome => ?_).le (by omega)
            cases outcome <;> exact Nat.zero_le _

theorem spends_remove (rawArg : Option JSString) :
    Spends T (remove rawArg) (6 * T .calls + T .writes + 5000 * T .lockMs) := by
  refine spends_eval fun valid => ?_
  split_ifs
  · exact Prog.costs_ret _
  · refine ((Watchlist.spends_remove _).bind (m := 0) fun outcome => ?_).le (by omega)
    cases outcome <;> exact Nat.zero_le _

omit [Platform] in
theorem spends_setPaused (paused : Bool) :
    Spends T (setPaused paused) (3 * T .calls + T .writes + 5000 * T .lockMs) := by
  refine ((Watchlist.spends_setPaused _).bind (m := 0) fun outcome => ?_).le (by omega)
  cases outcome <;> exact Nat.zero_le _

theorem spends_commands (intent : CommandParser.Intent) :
    Spends T (commands intent) (worth T (commandUse intent.type)) := by
  obtain ⟨type, arg⟩ := intent
  unfold commands worth
  cases type with
  | add => exact (spends_add arg).le (by simp only [commandUse, amounts]; omega)
  | remove => exact (spends_remove arg).le (by simp only [commandUse, amounts]; omega)
  | pause => exact (spends_setPaused true).le (by simp only [commandUse, amounts]; omega)
  | resume => exact (spends_setPaused false).le (by simp only [commandUse, amounts]; omega)
  | list =>
    exact (Watchlist.spends_tickers.bind fun _ => Watchlist.spends_isPaused.map _).le
      (by simp only [commandUse, amounts]; omega)
  | log =>
    refine ((SecurityVault.spends_recentAudit 8).bind (m := 0) fun entries => ?_).le
      (by simp only [commandUse, amounts]; omega)
    rw [← Prog.bind_ret (eval _)]
    exact spends_eval fun _ => Prog.costs_ret _
  | help | unlock => exact Prog.costs_ret _

end CommandHandler

/-! ## The whole bot -/

/-- What a request may use up, by the command that its message asks for. A probe that seals the bot
makes four writes; an unlock waits for the lock three times, as does a change of the watchlist. -/
def requestAllowance : CommandParser.CommandType → Resource → ℕ
  | .add => amounts 50 4 15000 0 1 1
  | .remove => amounts 38 4 15000 0 0 1
  | .pause | .resume => amounts 35 4 15000 0 0 1
  | .list => amounts 36 4 10000 0 0 1
  | .log => amounts 34 4 10000 0 0 1
  | .help => amounts 32 4 10000 0 0 1
  | .unlock => amounts 43 5 15000 0 0 1

def Entry.allowance : Entry → Resource → ℕ
  | .doPost e => requestAllowance (CommandParser.parse (CommandHandler.bodyOf e)).type
  | .runDailyAlert => amounts 70 1 5000 135000 10 1

namespace CommandHandler

theorem spends_answer (e : Option WebhookEvent) : Spends T (answer e)
    (18 * T .calls + T .texts + worth T (commandUse (CommandParser.parse (bodyOf e)).type)) := by
  refine ((spends_validate Config.webhookKeys).bind fun _ => (spends_commands _).bind fun reply =>
    (SmsService.spends_send reply).map _).le ?_
  have hkeys : Config.webhookKeys.length = 8 := rfl
  rw [hkeys]
  omega

omit [Platform] in
theorem parse_bodyOf (e : Option WebhookEvent) : (CommandParser.parse (bodyOf e)).type =
    (CommandParser.parse (Value.ofOption (SecurityGate.paramsOf e).body)).type := by
  unfold bodyOf SecurityGate.paramsOf
  cases e.bind WebhookEvent.parameter with
  | none => decide
  | some params => rfl

theorem spends_handle (e : Option WebhookEvent) {n : ℕ}
    (hprobe : 31 * T .calls + 4 * T .writes + 10000 * T .lockMs + T .texts ≤ n)
    (hopen : 31 * T .calls + 2 * T .writes + 10000 * T .lockMs + T .texts +
      worth T (commandUse (CommandParser.parse (bodyOf e)).type) ≤ n)
    (hunlock : (CommandParser.parse (bodyOf e)).type = .unlock →
      42 * T .calls + 5 * T .writes + 15000 * T .lockMs + T .texts ≤ n) :
    Spends T (handle e) n := by
  set answering := 18 * T .calls + T .texts +
    worth T (commandUse (CommandParser.parse (bodyOf e)).type) with hanswering
  refine (SecurityGate.affords_authorize e answering (10 * T .calls + T .texts) (by omega) (by omega)
    (by omega) fun htype => ?_).bind (fun auth => ?_) fun _ => Nat.zero_le _
  · rw [← parse_bodyOf] at htype
    have hn := hunlock htype
    have hfree : worth T (commandUse .unlock) = 0 := by simp [worth, commandUse, amounts]
    rw [htype, hfree] at hanswering
    omega
  · obtain ⟨allowed, justSealed⟩ := auth
    cases allowed with
    | true => exact (spends_answer e).map _
    | false =>
      cases justSealed with
      | true => exact (SmsService.spends_send _).map _
      | false => exact Nat.zero_le _

theorem spends_doPost (e : Option WebhookEvent) :
    Spends T (doPost e) (worth T (Entry.doPost e).allowance) := by
  refine Prog.Affords.le (Prog.Costs.catchWith (spends_handle e
    (n := worth T (Entry.doPost e).allowance - T .calls) ?_ ?_ ?_) fun err =>
    (spends_console _ _).map _) ?_
  all_goals
    unfold Entry.allowance worth
    dsimp only
    generalize (CommandParser.parse (bodyOf e)).type = type
    cases type <;>
      simp only [requestAllowance, commandUse, amounts, reduceCtorEq, false_imp_iff] <;> omega

end CommandHandler

theorem spends_program (entry : Entry) : Spends T entry.program (worth T entry.allowance) := by
  cases entry with
  | doPost e => exact (CommandHandler.spends_doPost e).map _
  | runDailyAlert =>
    refine (Scheduler.spends_runDailyAlert.map _).le ?_
    simp only [worth, Entry.allowance, amounts]
    omega

theorem costs_program (entry : Entry) (r : Resource) :
    entry.program.Costs (fun c => uses c r) (entry.allowance r) := by
  have h := spends_program (T := Pi.single r 1) entry
  rw [worth_single] at h
  have hprice : price (Pi.single r 1) = fun c => uses c r := funext fun c => worth_single r (uses c)
  rwa [Spends, hprice] at h

section Pool

variable {ι : Type} [DecidableEq ι] {entry : ι → Entry} {s₀ : Store} {E : Effect GAS ι Store}
  {p : Pool GAS JSError (Option JSString) ι Store} {t : List (ι × Cmd GAS)}

/-- **Nobody uses up more than its allowance, and every schedule ends.** Whatever the platform answers
and whatever the store holds, each execution keeps to its allowance at every instant, all together to
the sum of theirs, and no interleaving goes on for ever. -/
theorem pool_budget [Fintype ι] (hrun : Pool.Traced E (botStart entry s₀) t p) :
    (∀ i r, Pool.bill (fun c => uses c r) t i ≤ (entry i).allowance r) ∧
    (∀ r, (t.map fun m => uses m.2 r).sum ≤ ∑ i, (entry i).allowance r) ∧
    t.length ≤ ∑ i, (entry i).allowance .calls ∧
    ∀ f who, f 0 = botStart entry s₀ → ¬ Pool.Endless E f who := by
  have hbill : ∀ i r, Pool.bill (fun c => uses c r) t i ≤ (entry i).allowance r := fun i r =>
    hrun.bill_le (fun j => costs_program (entry j) r) i
  have hcalls : ∀ i, (entry i).program.Costs (fun _ => 1) ((entry i).allowance .calls) := by
    intro i
    have h := costs_program (entry i) .calls
    have hone : (fun c => uses c .calls) = fun _ => 1 := by
      funext c
      cases c <;> rfl
    rwa [hone] at h
  refine ⟨hbill, fun r => ?_, hrun.length_le hcalls, fun f who hstart => ?_⟩
  · rw [← Pool.sum_bill (fun c => uses c r) t]
    exact Finset.sum_le_sum fun i _ => hbill i r
  · exact Pool.not_endless hcalls hstart

end Pool

end Budgets

section
open AppsScript

theorem pool_budget_turns : ∃ t,
    Pool.Traced (storeEffect True) (botStart deliveredTwice sampleStore) t turnsPool ∧
      t.length ≤ 35 + 35 + 70 := by
  obtain ⟨t, ht⟩ := runs_turnsPool.traced
  have hsum : ∑ i, (deliveredTwice i).allowance .calls = 35 + 35 + 70 := by decide +kernel
  exact ⟨t, ht, hsum ▸ (pool_budget ht).2.2.1⟩

/-- A request can wait fifteen seconds for a lock that others keep. -/
example :
    let store := sampleStore.set .secFailures (js "2")
    let env : Env := { sampleEnv with lock := fun i => i = 0 }
    let e : WebhookEvent :=
      ⟨some ⟨some (js "token"), some (js "+15550199"), some (js "remove GLD"), some (js "SM9")⟩⟩
    (((CommandHandler.doPost (some e)).run host ⟨store, env⟩).performed.map
      fun c => uses c .lockMs).sum = 15000 := by decide +kernel

end
end Spazito
