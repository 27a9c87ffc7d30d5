import Spazito.ShellCalls
import Spazito.WatchlistRuns

set_option autoImplicit false

/-!
# Replies before they are put into words

The handler restated with the replies as data: which reply is called for, with which arguments.
-/
namespace Spazito.CommandHandler
open Ecma Script

/-- A call of one of the functions of `Replies`. -/
inductive Reply
  | added (ticker : JSString) (tickers : List JSString)
  | duplicate (ticker : JSString)
  | atCap (max : ℕ)
  | invalidTicker (raw : Option JSString)
  | unknownSymbol (ticker : JSString)
  | serviceUnreachable
  | removed (ticker : JSString) (tickers : List JSString) (nowEmpty : Bool)
  | notTracking (ticker : JSString)
  | paused
  | resumed
  | busy
  | list (tickers : List JSString) (paused : Bool)
  | help
  | auditLog (entries : List Value)
  | unlocked

def Reply.text : Reply → Except Fault JSString
  | added ticker tickers => .ok (Replies.added ticker tickers)
  | duplicate ticker => .ok (Replies.duplicate ticker)
  | atCap max => .ok (Replies.atCap max)
  | invalidTicker raw => .ok (Replies.invalidTicker raw)
  | unknownSymbol ticker => .ok (Replies.unknownSymbol ticker)
  | serviceUnreachable => .ok Replies.serviceUnreachable
  | removed ticker tickers nowEmpty => .ok (Replies.removed ticker tickers nowEmpty)
  | notTracking ticker => .ok (Replies.notTracking ticker)
  | paused => .ok Replies.paused
  | resumed => .ok Replies.resumed
  | busy => .ok Replies.busy
  | list tickers flag => .ok (Replies.list tickers flag)
  | help => .ok Replies.help
  | auditLog entries => Replies.auditLog entries
  | unlocked => .ok Replies.unlocked

def noEntry : Action Reply := throw ⟨js "TypeError", js "replies[result.status] is not a function"⟩

def addedReply : Watchlist.Outcome → Action Reply
  | .added ticker tickers => return .added ticker tickers
  | .duplicate ticker _ => return .duplicate ticker
  | .atCap _ _ => return .atCap Watchlist.maxTickers
  | .invalid ticker => return .invalidTicker (some ticker)
  | .busy => return .busy
  | _ => noEntry

def removedReply : Watchlist.Outcome → Action Reply
  | .removed ticker tickers nowEmpty => return .removed ticker tickers nowEmpty
  | .notFound ticker _ => return .notTracking ticker
  | .busy => return .busy
  | _ => noEntry

def pausedReply : Watchlist.Outcome → Action Reply
  | .paused => return .paused
  | .resumed => return .resumed
  | .busy => return .busy
  | _ => noEntry

theorem normalize_argValue (arg : Option JSString) :
    ∃ t, Tickers.normalize (argValue arg) = .ok t := by
  cases arg with
  | none => exact ⟨[], rfl⟩
  | some s => exact ⟨_, rfl⟩

theorem isValid_argValue (arg : Option JSString) :
    ∃ valid, Tickers.isValid (argValue arg) = .ok valid := by
  obtain ⟨t, ht⟩ := normalize_argValue arg
  exact ⟨_, by rw [Tickers.isValid, ht]; rfl⟩

variable [Platform]

/-- The paid check and what follows it. -/
def addQuoted (ticker : JSString) : List PriceService.Quote → Action Reply
  | [] => throw (Platform.faultError (.nullishProperty (js "ok")))
  | quote :: _ =>
    match quote.result with
    | .error .noQuote => return .unknownSymbol ticker
    | .error _ => return .serviceUnreachable
    | .ok _ => do addedReply (← Watchlist.add (.str ticker))

def addReply (rawArg : Option JSString) : Action Reply := do
  if !(← eval (Tickers.isValid (argValue rawArg))) then return .invalidTicker rawArg
  else
    let ticker ← eval (Tickers.normalize (argValue rawArg))
    if ← Watchlist.has (.str ticker) then return .duplicate ticker
    else if ← Watchlist.isFull then return .atCap Watchlist.maxTickers
    else addQuoted ticker (← PriceService.quotesFor [ticker])

def removeReply (rawArg : Option JSString) : Action Reply := do
  if !(← eval (Tickers.isValid (argValue rawArg))) then return .invalidTicker rawArg
  else removedReply (← Watchlist.remove (argValue rawArg))

def setPausedReply (paused : Bool) : Action Reply := do
  pausedReply (← Watchlist.setPaused paused)

def reply (intent : CommandParser.Intent) : Action Reply :=
  match intent.type with
  | .add => addReply intent.arg
  | .remove => removeReply intent.arg
  | .pause => setPausedReply true
  | .resume => setPausedReply false
  | .list => do return .list (← Watchlist.tickers) (← Watchlist.isPaused)
  | .help => return .help
  | .log => do return .auditLog (← SecurityVault.recentAudit 8)
  | .unlock => return .unlocked

/-! ## The handler in these terms -/

/-- The words of a reply. -/
abbrev say (r : Reply) : Action JSString := eval r.text

theorem add_eq (rawArg : Option JSString) : add rawArg = (addReply rawArg).bind say := by
  unfold add addReply
  simp only [Prog.bind_eq, Prog.bind_assoc]
  refine congrArg (Prog.bind _) (funext fun valid => ?_)
  cases valid with
  | false => rfl
  | true =>
    simp only [Bool.not_true, Bool.false_eq_true, ↓reduceIte, Prog.bind_assoc]
    refine congrArg (Prog.bind _) (funext fun ticker => congrArg (Prog.bind _) (funext fun known => ?_))
    cases known with
    | true => rfl
    | false =>
      simp only [Bool.false_eq_true, ↓reduceIte, Prog.bind_assoc]
      refine congrArg (Prog.bind _) (funext fun full => ?_)
      cases full with
      | true => rfl
      | false =>
        simp only [Bool.false_eq_true, ↓reduceIte, Prog.bind_assoc]
        refine congrArg (Prog.bind _) (funext fun quotes => ?_)
        cases quotes with
        | nil => rfl
        | cons quote quotes =>
          obtain ⟨t, result⟩ := quote
          cases result with
          | error reason => cases reason <;> rfl
          | ok price =>
            simp only [addQuoted, Prog.bind_eq, Prog.bind_assoc]
            refine congrArg (Prog.bind _) (funext fun out => ?_)
            cases out <;> rfl

theorem remove_eq (rawArg : Option JSString) : remove rawArg = (removeReply rawArg).bind say := by
  unfold remove removeReply
  simp only [Prog.bind_eq, Prog.bind_assoc]
  refine congrArg (Prog.bind _) (funext fun valid => ?_)
  cases valid with
  | false => rfl
  | true =>
    simp only [Bool.not_true, Bool.false_eq_true, ↓reduceIte, Prog.bind_assoc]
    refine congrArg (Prog.bind _) (funext fun out => ?_)
    cases out <;> rfl

theorem setPaused_eq (paused : Bool) : setPaused paused = (setPausedReply paused).bind say := by
  unfold setPaused setPausedReply
  simp only [Prog.bind_eq, Prog.bind_assoc]
  refine congrArg (Prog.bind _) (funext fun out => ?_)
  cases out <;> rfl

theorem commands_eq (intent : CommandParser.Intent) : commands intent = (reply intent).bind say := by
  unfold commands reply
  cases intent.type with
  | add => exact add_eq _
  | remove => exact remove_eq _
  | pause | resume => exact setPaused_eq _
  | list | log => simp only [Prog.bind_eq, Prog.bind_assoc]; rfl
  | help | unlock => rfl

/-! ## Footprint -/

abbrev replyFootprint (fetches : Request → Prop) : Footprint :=
  ⟨fun _ => True, (· ∈ [Key.watchlist, .paused]), fetches⟩

def replyKeys : List Key := [.watchlist, .paused, .secAudit, .alphaVantageKey]

section Footprints

variable {F : Footprint}

theorem footprint_addQuoted (hr : F.reads .watchlist) (hw : F.writes .watchlist ∧ F.writes .paused)
    (ticker : JSString) (quotes : List PriceService.Quote) : (addQuoted ticker quotes).Within F.allows := by
  unfold addQuoted
  split
  · trivial
  · split
    · trivial
    · trivial
    · refine (Watchlist.within_program (.add (.str ticker)) hr hw).bind fun out => ?_
      cases out <;> trivial

theorem footprint_addReply (hr : ∀ k ∈ replyKeys, F.reads k)
    (hw : F.writes .watchlist ∧ F.writes .paused) (rawArg : Option JSString)
    (hf : ∀ r, PriceService.Asks r → F.fetches r) : (addReply rawArg).Within F.allows := by
  have hlist : F.reads .watchlist := hr _ (by decide)
  refine (Footprint.eval _).bind fun valid => ?_
  split_ifs
  · trivial
  · refine (Footprint.eval _).bind fun ticker =>
      (Watchlist.within_has hlist).bind fun known => ?_
    split_ifs
    · trivial
    · refine (Watchlist.within_isFull hlist).bind fun full => ?_
      split_ifs
      · trivial
      · exact (PriceService.within_quotesFor _ (hr _ (by decide)) hf).bind fun quotes =>
          footprint_addQuoted hlist hw ticker quotes

theorem footprint_reply (hr : ∀ k ∈ replyKeys, F.reads k)
    (hw : F.writes .watchlist ∧ F.writes .paused) (intent : CommandParser.Intent)
    (hf : intent.type = .add → ∀ r, PriceService.Asks r → F.fetches r) :
    (reply intent).Within F.allows := by
  have hlist : F.reads .watchlist := hr _ (by decide)
  have hpaused (b : Bool) : (setPausedReply b).Within F.allows := by
    refine (Watchlist.within_program (.setPaused b) hlist hw).bind fun out => ?_
    cases out <;> trivial
  unfold reply
  cases hi : intent.type with
  | add => exact footprint_addReply hr hw _ (hf hi)
  | remove =>
    refine (Footprint.eval _).bind fun valid => ?_
    split_ifs
    · trivial
    · refine (Watchlist.within_program (.remove (argValue intent.arg)) hlist hw).bind fun out => ?_
      cases out <;> trivial
  | pause | resume => exact hpaused _
  | list => exact (Watchlist.within_tickers hlist).bind fun _ =>
      (Watchlist.within_isPaused (hr _ (by decide))).bind fun _ => trivial
  | log => exact (SecurityVault.within_recentAudit (hr _ (by decide))).bind fun _ => trivial
  | help | unlock => trivial

end Footprints

variable {fetches : Request → Prop}

theorem within_addQuoted (ticker : JSString) (quotes : List PriceService.Quote) :
    (addQuoted ticker quotes).Within (replyFootprint fetches).allows :=
  footprint_addQuoted trivial (by simp) ticker quotes

theorem within_reply (intent : CommandParser.Intent)
    (hf : intent.type = .add → ∀ r, PriceService.Asks r → fetches r) :
    (reply intent).Within (replyFootprint fetches).allows :=
  footprint_reply (fun _ _ => trivial) (by simp) intent hf

theorem within_reply_any (intent : CommandParser.Intent) :
    (reply intent).Within (replyFootprint fun _ => True).allows :=
  within_reply intent fun _ _ _ => trivial

/-! ## The watchlist stays one -/

theorem maintains_outcome {o : Watchlist.Operation} {f : Watchlist.Outcome → Action Reply}
    (hf : ∀ out, (f out).Within Watchlist.sparing.allows) :
    Maintains Watchlist.Stored (o.program.bind f) :=
  (Watchlist.maintains_program o).bind fun out => Watchlist.maintains_sparing (hf out)

theorem maintains_addReply (rawArg : Option JSString) :
    Maintains Watchlist.Stored (addReply rawArg) := by
  have hread {α : Type} {p : Action α} (hp : p.Within Watchlist.sparing.allows) :=
    Watchlist.maintains_sparing hp
  refine (hread (Footprint.eval _)).bind fun valid => ?_
  split_ifs
  · exact .ret fun _ h => h
  · refine (hread (Footprint.eval _)).bind fun ticker =>
      (hread (Watchlist.within_has trivial)).bind fun known => ?_
    split_ifs
    · exact .ret fun _ h => h
    · refine (hread (Watchlist.within_isFull trivial)).bind fun full => ?_
      split_ifs
      · exact .ret fun _ h => h
      · refine (hread (PriceService.within_quotesFor _ trivial fun _ _ => trivial)).bind fun quotes => ?_
        unfold addQuoted
        split
        · exact .raise fun _ h => h
        · split
          · exact .ret fun _ h => h
          · exact .ret fun _ h => h
          · exact maintains_outcome (o := .add (.str ticker)) fun out => by cases out <;> trivial

theorem maintains_reply (intent : CommandParser.Intent) : Maintains Watchlist.Stored (reply intent) := by
  have hread {α : Type} {p : Action α} (hp : p.Within Watchlist.sparing.allows) :=
    Watchlist.maintains_sparing hp
  have hpaused (b : Bool) : Maintains Watchlist.Stored (setPausedReply b) :=
    maintains_outcome (o := .setPaused b) fun out => by cases out <;> trivial
  unfold reply
  cases intent.type with
  | add => exact maintains_addReply _
  | remove =>
    refine (hread (Footprint.eval _)).bind fun valid => ?_
    split_ifs
    · exact .ret fun _ h => h
    · exact maintains_outcome (o := .remove (argValue intent.arg)) fun out => by
        cases out <;> trivial
  | pause | resume => exact hpaused _
  | list => exact (hread (Watchlist.within_tickers trivial)).bind fun _ =>
      (hread (Watchlist.within_isPaused trivial)).bind fun _ => .ret fun _ h => h
  | log => exact (hread (SecurityVault.within_recentAudit trivial)).bind fun _ => .ret fun _ h => h
  | help | unlock => exact .ret fun _ h => h

end Spazito.CommandHandler
