import Spazito.Reachable
import Spazito.SignedText

set_option autoImplicit false

/-!
# The bot, abstractly

Everything the program keeps between two executions, within its bounds; the changes that a single
write can make of it; and the properties that stand for it.
-/
namespace Spazito
open Ecma Script

/-- One more, as far as a double can tell. -/
def countUp (n : ℕ) : ℕ := min (n + 1) (2 ^ 53)

theorem countUp_le (n : ℕ) : countUp n ≤ 2 ^ 53 := Nat.min_le_right _ _

theorem add_one_countUp {n : ℕ} (hn : n ≤ 2 ^ 53) :
    Number.add (.finite n) (.finite 1) = .finite (countUp n) := by
  rcases hn.lt_or_eq with hlt | rfl
  · have hadd := Number.add_natCast n 1 hlt
    rw [countUp, Nat.min_eq_left hlt]
    exact_mod_cast hadd
  · decide +kernel

structure Bot where
  tracked : Watchlist.Tracked
  vault : Vault
  trail : List AuditEntry
  counter : ℕ
  failures_le : vault.failures ≤ 2 ^ 53
  seen_le : vault.seen.length ≤ SecurityVault.maxSids
  trail_le : trail.length ≤ SecurityVault.maxAuditEntries
  counter_le : counter ≤ 2 ^ 53

/-- What a single write can do. -/
inductive Change
  | add (ticker : JSString)
  | remove (ticker : JSString)
  | setPaused (paused : Bool)
  | countFailure
  | zeroFailures
  | trip
  | reopen
  | record (now : Time) (sid : JSString)
  | audit (entry : AuditEntry)
  | claim (number : ℕ)

theorem SecurityVault.length_lastOf {α : Type} (n : ℕ) (xs : List α) : (lastOf n xs).length ≤ n := by
  rw [lastOf, List.length_drop]
  omega

theorem SecurityVault.map_lastOf {α β : Type} (f : α → β) (n : ℕ) (xs : List α) :
    (lastOf n xs).map f = lastOf n (xs.map f) := by
  rw [lastOf, lastOf, List.map_drop, List.length_map]

theorem SecurityVault.reverse_lastOf {α : Type} (n : ℕ) (xs : List α) :
    (lastOf n xs).reverse = xs.reverse.take n := by
  change (xs.rtake n).reverse = _
  rw [List.rtake_eq_reverse_take_reverse, List.reverse_reverse]

namespace Bot

def initial : Bot where
  tracked := .initial
  vault := .empty
  trail := []
  counter := 0
  failures_le := Nat.zero_le _
  seen_le := Nat.zero_le _
  trail_le := Nat.zero_le _
  counter_le := Nat.zero_le _

def withTracked (b : Bot) (a : Watchlist.Tracked) : Bot := { b with tracked := a }

def withFailures (b : Bot) (n : ℕ) (hn : n ≤ 2 ^ 53) : Bot :=
  { b with vault := { b.vault with failures := n }, failures_le := hn, seen_le := b.seen_le }

def withSealed (b : Bot) (isSealed : Bool) : Bot :=
  { b with vault := { b.vault with isSealed := isSealed }, failures_le := b.failures_le,
           seen_le := b.seen_le }

def withRecord (b : Bot) (now : Time) (sid : JSString) : Bot :=
  { b with vault := b.vault.record now sid, failures_le := b.failures_le,
           seen_le := SecurityVault.length_lastOf _ _ }

def withEntry (b : Bot) (entry : AuditEntry) : Bot :=
  { b with trail := SecurityVault.lastOf SecurityVault.maxAuditEntries (b.trail ++ [entry]),
           trail_le := SecurityVault.length_lastOf _ _ }

/-- What becomes of the bot; `none` where the change cannot be made. -/
def change (b : Bot) : Change → Option Bot
  | .add t =>
    if hc : Tickers.Canonical t then
      if hold : b.tracked.tickers.contains t then none
      else if hroom : b.tracked.tickers.length < Watchlist.maxTickers then
        some (b.withTracked { b.tracked with
          roster := b.tracked.roster.append t hc (fun hmem => hold (List.contains_iff_mem.mpr hmem)) hroom })
      else none
    else none
  | .remove t =>
    if b.tracked.tickers.contains t then
      some (b.withTracked { b.tracked with roster := b.tracked.roster.drop t })
    else none
  | .setPaused paused => some (b.withTracked { b.tracked with paused := paused })
  | .countFailure => some (b.withFailures (countUp b.vault.failures) (countUp_le _))
  | .zeroFailures => some (b.withFailures 0 (Nat.zero_le _))
  | .trip =>
    if SecurityVault.maxFailures ≤ b.vault.failures ∧ b.vault.isSealed = false then
      some (b.withSealed true)
    else none
  | .reopen => some (b.withSealed false)
  | .record now sid => if b.vault.replays now sid then none else some (b.withRecord now sid)
  | .audit entry => some (b.withEntry entry)
  | .claim number => if number = countUp b.counter then
      some { b with counter := countUp b.counter, counter_le := countUp_le _ }
    else none

def after (b : Bot) (changes : List Change) : Option Bot := changes.foldlM change b

theorem after_append (b : Bot) (cs ds : List Change) :
    b.after (cs ++ ds) = (b.after cs).bind fun b' => b'.after ds := List.foldlM_append ..

theorem after_concat {b b' : Bot} {c : Change} {changes : List Change}
    (h : b.after (changes ++ [c]) = some b') :
    ∃ b₁, b.after changes = some b₁ ∧ b₁.change c = some b' := by
  rw [after_append] at h
  obtain ⟨b₁, hb₁, h⟩ := Option.bind_eq_some_iff.mp h
  rw [after, List.foldlM_cons] at h
  exact ⟨b₁, hb₁, (bind_pure (b₁.change c)).symm.trans h⟩

/-! ## The properties -/

/-- The two flags are unset or as the program writes them. -/
def Switches (s : Store) : Prop :=
  ∀ k ∈ [Key.paused, .secSealed], s k = none ∨ s k = some (js "true") ∨ s k = some (js "false")

theorem Switches.set {s : Store} (h : Switches s) {k : Key} {v : JSString}
    (hv : k ∈ [Key.paused, .secSealed] → v = js "true" ∨ v = js "false") : Switches (s.set k v) := by
  intro k' hk'
  by_cases hk : k' = k
  · subst hk
    rw [Store.set_self]
    exact .inr ((hv hk').imp (congrArg some) (congrArg some))
  · rw [Store.set_ne s v hk]
    exact h k' hk'

/-- The properties hold this state, as the program itself writes it. -/
structure Represents (b : Bot) (s : Store) : Prop where
  tracked : Watchlist.Represents b.tracked (Watchlist.stored s)
  vault : Spazito.Represents s b.vault
  trail : s .secAudit = none ∧ b.trail = [] ∨ s .secAudit = some (trailText b.trail)
  counter : s .secMsgCount = none ∧ b.counter = 0 ∨ s .secMsgCount = some (decimal b.counter)
  switches : Switches s

variable {b : Bot} {s s' : Store}

theorem represents_initial (h : Installed s) : initial.Represents s where
  tracked := Watchlist.represents_initial (h.unset _ (by decide)) (h.unset _ (by decide))
  vault := ⟨by rw [h.unset _ (by decide)]; decide, by rw [h.unset _ (by decide)]; decide,
    .inl ⟨h.unset _ (by decide), rfl⟩⟩
  trail := .inl ⟨h.unset _ (by decide), rfl⟩
  counter := .inl ⟨h.unset _ (by decide), rfl⟩
  switches := fun k hk => .inl (h.unset k (by
    rcases List.mem_pair.mp hk with rfl | rfl <;> decide))

theorem Represents.array_audit (h : b.Represents s) : s.array .secAudit = b.trail.map auditEntry := by
  rcases h.trail with ⟨hs, hb⟩ | hs
  · simp [Store.array, hs, hb]
  · simp [Store.array, hs, parse_trailText]

theorem Represents.countOf (h : b.Represents s) :
    SecurityVault.countOf (s .secMsgCount) = .finite b.counter := by
  rcases h.counter with ⟨hs, hb⟩ | hs
  · rw [hs, hb]
    decide +kernel
  · rw [hs, SecurityVault.countOf_decimal b.counter_le]

theorem Represents.countOrZero (h : b.Represents s) :
    SecurityVault.countOrZero (s .secFailures) = .finite b.vault.failures :=
  SecurityVault.countOrZero_of_text h.vault.failures b.failures_le

theorem Represents.countOrZero_next (h : b.Represents s) :
    SecurityVault.countOrZero (some (Number.add (SecurityVault.countOrZero (s .secFailures))
      (.finite 1)).toText) = Number.add (SecurityVault.countOrZero (s .secFailures)) (.finite 1) := by
  rw [h.countOrZero, add_one_countUp b.failures_le, Number.toText_natCast _ (countUp_le _)]
  exact SecurityVault.countOrZero_of_text rfl (countUp_le _)

/-! ## One write, one change -/

/-- From every bot that the first store stands for, the change leads to one of the second. -/
def Does (c : Change) (s s' : Store) : Prop :=
  ∀ b : Bot, b.Represents s → ∃ b', b.change c = some b' ∧ b'.Represents s'

theorem vault_set {k : Key} {v : JSString} {vault : Vault} (h : Spazito.Represents s vault)
    (hk : k ∉ [Key.secFailures, .secSealed, .secSeenSids]) : Spazito.Represents (s.set k v) vault :=
  SecurityGate.represents_congr h fun k' hk' => Store.set_ne s v (by rintro rfl; exact hk hk')

theorem tracked_set {k : Key} {v : JSString} {a : Watchlist.Tracked}
    (h : Watchlist.Represents a (Watchlist.stored s)) (hk : k ∉ [Key.watchlist, .paused]) :
    Watchlist.Represents a (Watchlist.stored (s.set k v)) := by
  have hlist : Key.watchlist ≠ k := by rintro rfl; simp at hk
  have hflag : Key.paused ≠ k := by rintro rfl; simp at hk
  rw [show Watchlist.stored (s.set k v) = Watchlist.stored s from
    Prod.ext (Store.set_ne s v hlist) (Store.set_ne s v hflag)]
  exact h

theorem does_add {t : JSString} {a : Watchlist.Tracked}
    (ha : Watchlist.Represents a (Watchlist.stored s)) (hc : Tickers.Canonical t)
    (hnew : t ∉ a.tickers) (hroom : a.tickers.length < Watchlist.maxTickers) :
    Does (.add t) s (s.set .watchlist (Watchlist.listText (a.tickers ++ [t]))) := by
  intro b hb
  have htickers : b.tracked.tickers = a.tickers :=
    Except.ok.inj ((Watchlist.tickersOf_represented hb.tracked).symm.trans
      (Watchlist.tickersOf_represented ha))
  rw [← htickers] at hnew hroom ⊢
  have hold : ¬ b.tracked.tickers.contains t = true := fun h => hnew (List.contains_iff_mem.mp h)
  rw [change, dif_pos hc, dif_neg hold, dif_pos hroom]
  refine ⟨_, rfl, ?_, vault_set hb.vault (by decide), hb.trail, hb.counter,
    hb.switches.set fun h => absurd h (by decide)⟩
  rw [Watchlist.stored_set_watchlist]
  exact hb.tracked.with_list (b.tracked.roster.append t hc hnew hroom)

theorem does_remove {t : JSString} {a : Watchlist.Tracked}
    (ha : Watchlist.Represents a (Watchlist.stored s)) (hmem : t ∈ a.tickers) :
    Does (.remove t) s (s.set .watchlist (Watchlist.listText (a.tickers.filter (· ≠ t)))) := by
  intro b hb
  have htickers : b.tracked.tickers = a.tickers :=
    Except.ok.inj ((Watchlist.tickersOf_represented hb.tracked).symm.trans
      (Watchlist.tickersOf_represented ha))
  rw [← htickers] at hmem ⊢
  rw [change, if_pos (List.contains_iff_mem.mpr hmem)]
  refine ⟨_, rfl, ?_, vault_set hb.vault (by decide), hb.trail, hb.counter,
    hb.switches.set fun h => absurd h (by decide)⟩
  rw [Watchlist.stored_set_watchlist]
  exact hb.tracked.with_list (b.tracked.roster.drop t)

theorem does_setPaused (s : Store) (paused : Bool) :
    Does (.setPaused paused) s (s.set .paused (if paused then js "true" else js "false")) := by
  intro b hb
  refine ⟨_, rfl, ?_, vault_set hb.vault (by decide), hb.trail, hb.counter,
    hb.switches.set fun _ => by cases paused <;> simp⟩
  rw [Watchlist.stored_set_paused]
  exact hb.tracked.with_flag paused

theorem does_countFailure (s : Store) : Does .countFailure s (s.set .secFailures
    (Number.add (SecurityVault.countOrZero (s .secFailures)) (.finite 1)).toText) := by
  intro b hb
  rw [hb.countOrZero, add_one_countUp b.failures_le, Number.toText_natCast _ (countUp_le _)]
  refine ⟨_, rfl, tracked_set hb.tracked (by decide), ?_, hb.trail, hb.counter,
    hb.switches.set fun h => absurd h (by decide)⟩
  exact ⟨by rw [Store.set_self]; rfl, hb.vault.isSealed, hb.vault.seen⟩

theorem does_zeroFailures (s : Store) :
    Does .zeroFailures s (s.set .secFailures (js "0")) := by
  intro b hb
  refine ⟨_, rfl, tracked_set hb.tracked (by decide), ?_, hb.trail, hb.counter,
    hb.switches.set fun h => absurd h (by decide)⟩
  have hzero : js "0" = decimal 0 := by decide
  exact ⟨by rw [Store.set_self]; exact hzero, hb.vault.isSealed, hb.vault.seen⟩

theorem does_trip (hcount : Number.le (.finite SecurityVault.maxFailures)
      (SecurityVault.countOrZero (s .secFailures)) = true) (hopen : s .secSealed ≠ some (js "true")) :
    Does .trip s (s.set .secSealed (js "true")) := by
  intro b hb
  rw [hb.countOrZero] at hcount
  have hle : SecurityVault.maxFailures ≤ b.vault.failures := by
    simpa [Number.le, Number.lt] using hcount
  have hflag : b.vault.isSealed = false := by simpa [hb.vault.isSealed] using hopen
  refine ⟨_, if_pos ⟨hle, hflag⟩, tracked_set hb.tracked (by decide), ?_, hb.trail, hb.counter,
    hb.switches.set fun _ => .inl rfl⟩
  exact ⟨hb.vault.failures, by simp [withSealed], hb.vault.seen⟩

theorem does_reopen (s : Store) : Does .reopen s (s.set .secSealed (js "false")) := by
  intro b hb
  refine ⟨_, rfl, tracked_set hb.tracked (by decide), ?_, hb.trail, hb.counter,
    hb.switches.set fun _ => .inr rfl⟩
  refine ⟨hb.vault.failures, ?_, hb.vault.seen⟩
  have hne : js "false" ≠ js "true" := by decide
  simp [withSealed, hne]

theorem does_audit (s : Store) (entry : AuditEntry) : Does (.audit entry) s (s.set .secAudit
    (Value.stringify (.arr (SecurityVault.lastOf SecurityVault.maxAuditEntries
      (s.array .secAudit ++ [auditEntry entry]))))) := by
  intro b hb
  refine ⟨_, rfl, tracked_set hb.tracked (by decide), vault_set hb.vault (by decide), .inr ?_,
    hb.counter, hb.switches.set fun h => absurd h (by decide)⟩
  rw [Store.set_self, hb.array_audit, trailText, withEntry, SecurityVault.map_lastOf, List.map_append]
  rfl

theorem does_record {now : Time} {sid : JSString} {fresh : List Value}
    (hfresh : SecurityVault.keepFresh now (s.array .secSeenSids) = .ok fresh)
    (hnew : SecurityVault.hasSid sid fresh = .ok false) :
    Does (.record now sid) s (s.set .secSeenSids (Value.stringify (.arr
      (SecurityVault.lastOf SecurityVault.maxSids (fresh ++
        [.obj [(js "sid", .str sid), (js "t", .num (.finite now.val))]]))))) := by
  intro b hb
  rw [hb.vault.array, SecurityVault.keepFresh_sidEntries] at hfresh
  obtain rfl := Except.ok.inj hfresh
  rw [SecurityVault.hasSid_sidEntries] at hnew
  have hnot : ¬ b.vault.replays now sid = true := by
    rw [Vault.replays, Vault.fresh, Except.ok.inj hnew]
    exact Bool.false_ne_true
  refine ⟨_, if_neg hnot, tracked_set hb.tracked (by decide), ?_, hb.trail, hb.counter,
    hb.switches.set fun h => absurd h (by decide)⟩
  have hseen : (b.withRecord now sid).vault.seen = SecurityVault.lastOf SecurityVault.maxSids
      (b.vault.seen.filter (Vault.live now) ++ [(sid, now)]) := rfl
  refine ⟨hb.vault.failures, hb.vault.isSealed, .inr ?_⟩
  rw [Store.set_self, sidsText, hseen, SecurityVault.map_lastOf, List.map_append]
  rfl

theorem does_claim {n : ℕ}
    (hn : Number.add (SecurityVault.countOf (s .secMsgCount)) (.finite 1) = .finite n) :
    Does (.claim n) s (s.set .secMsgCount
      (Number.add (SecurityVault.countOf (s .secMsgCount)) (.finite 1)).toText) := by
  intro b hb
  rw [hb.countOf, add_one_countUp b.counter_le] at hn ⊢
  have hcount : n = countUp b.counter := by
    have h := Number.finite.inj hn
    exact_mod_cast h.symm
  rw [Number.toText_natCast _ (countUp_le _)]
  exact ⟨_, if_pos hcount, tracked_set hb.tracked (by decide), vault_set hb.vault (by decide), hb.trail,
    .inr (Store.set_self ..), hb.switches.set fun h => absurd h (by decide)⟩

end Bot
end Spazito
