import Spazito.AppsScript
import Spazito.BotThreads
import Spazito.ScriptLog

set_option autoImplicit false

/-!
# The whole bot, in any interleaving

Requests and daily runs at the same time, over one store and one lock, with timeouts and failing
writes: every write is one change of the abstract bot, by an execution that may make it then.
-/
namespace Spazito
open Ecma Script

namespace Bot

/-! ## Sids that are still remembered -/

def recordTime : Change → Option Time
  | .record now _ => some now
  | _ => none

def recordTimes (changes : List Change) : List Time := changes.filterMap recordTime

/-- A recorded sid that fewer than so many have followed. -/
def Remembers (b : Bot) (t : Time) (sid : JSString) (n : ℕ) : Prop :=
  ∃ before later, b.vault.seen = before ++ (sid, t) :: later ∧ later.length ≤ n

variable {b b' : Bot} {t : Time} {sid : JSString} {n : ℕ}

theorem Remembers.congr (h : b.Remembers t sid n) (hseen : b'.vault.seen = b.vault.seen) :
    b'.Remembers t sid n := by
  rwa [Remembers, hseen]

theorem remembers_record (hrecord : b.change (.record t sid) = some b') : b'.Remembers t sid 0 := by
  rw [change] at hrecord
  split_ifs at hrecord
  cases hrecord
  have hseen : (b.withRecord t sid).vault.seen =
    SecurityVault.lastOf SecurityVault.maxSids (b.vault.fresh t ++ [(sid, t)]) := rfl
  have hcut : (b.vault.fresh t ++ [(sid, t)]).length - SecurityVault.maxSids ≤
      (b.vault.fresh t).length := by
    rw [List.length_append, List.length_singleton]
    have : 1 ≤ SecurityVault.maxSids := by decide
    omega
  refine ⟨(b.vault.fresh t).drop ((b.vault.fresh t ++ [(sid, t)]).length - SecurityVault.maxSids), [],
    ?_, le_rfl⟩
  rw [hseen, SecurityVault.lastOf, List.drop_append_of_le_length hcut]

theorem Remembers.record (h : b.Remembers t sid n) {now : Time} {other : JSString}
    (hlive : Vault.live now (sid, t) = true) (hroom : n + 1 < SecurityVault.maxSids) :
    (b.withRecord now other).Remembers t sid (n + 1) := by
  obtain ⟨before, later, hseen, hlater⟩ := h
  have hfresh : b.vault.fresh now =
      before.filter (Vault.live now) ++ (sid, t) :: later.filter (Vault.live now) := by
    rw [Vault.fresh, hseen, List.filter_append, List.filter_cons_of_pos hlive]
  have hlength := List.length_filter_le (Vault.live now) later
  have hnew : (b.withRecord now other).vault.seen =
      SecurityVault.lastOf SecurityVault.maxSids (before.filter (Vault.live now) ++
        (sid, t) :: (later.filter (Vault.live now) ++ [(other, now)])) := by
    change SecurityVault.lastOf SecurityVault.maxSids (b.vault.fresh now ++ [(other, now)]) = _
    rw [hfresh, List.append_assoc, List.cons_append]
  refine ⟨(before.filter (Vault.live now)).drop ((before.filter (Vault.live now) ++
    (sid, t) :: (later.filter (Vault.live now) ++ [(other, now)])).length - SecurityVault.maxSids),
    later.filter (Vault.live now) ++ [(other, now)], ?_, ?_⟩
  · rw [hnew, SecurityVault.lastOf, List.drop_append_of_le_length]
    simp only [List.length_append, List.length_cons, List.length_nil]
    omega
  · rw [List.length_append, List.length_singleton]
    omega

theorem Remembers.change (h : b.Remembers t sid n) {c : Change} (hc : b.change c = some b')
    (hlive : ∀ now ∈ recordTimes [c], Vault.live now (sid, t) = true)
    (hroom : n + (recordTimes [c]).length < SecurityVault.maxSids) :
    b'.Remembers t sid (n + (recordTimes [c]).length) := by
  cases c with
  | record now other =>
    rw [Bot.change] at hc
    split_ifs at hc
    cases hc
    exact h.record (hlive now (by simp [recordTimes, recordTime])) hroom
  | add ticker | remove ticker | trip | claim n =>
    rw [Bot.change] at hc
    split_ifs at hc
    cases hc
    exact h.congr rfl
  | setPaused paused | countFailure | zeroFailures | reopen | audit entry =>
    cases hc
    exact h.congr rfl

theorem recordTimes_cons (c : Change) (cs : List Change) :
    recordTimes (c :: cs) = recordTimes [c] ++ recordTimes cs := List.filterMap_append (l := [c])

theorem Remembers.after (h : b.Remembers t sid n) {changes : List Change}
    (hafter : b.after changes = some b')
    (hlive : ∀ now ∈ recordTimes changes, Vault.live now (sid, t) = true)
    (hroom : n + (recordTimes changes).length < SecurityVault.maxSids) :
    b'.Remembers t sid (n + (recordTimes changes).length) := by
  induction changes generalizing b n with
  | nil =>
    cases hafter
    exact h
  | cons c changes ih =>
    rw [Bot.after, List.foldlM_cons] at hafter
    obtain ⟨b₁, hfirst, hrest⟩ := Option.bind_eq_some_iff.mp hafter
    rw [recordTimes_cons] at hlive hroom ⊢
    rw [List.length_append, ← Nat.add_assoc] at hroom ⊢
    have hnext := h.change hfirst (fun now hnow => hlive now (List.mem_append_left _ hnow)) (by omega)
    exact ih hnext hrest (fun now hnow => hlive now (List.mem_append_right _ hnow)) hroom

theorem Remembers.replays (h : b.Remembers t sid n) {now : Time}
    (hlive : Vault.live now (sid, t) = true) : b.vault.replays now sid = true := by
  obtain ⟨before, later, hseen, -⟩ := h
  refine List.any_eq_true.mpr ⟨(sid, t), List.mem_filter.mpr ⟨?_, hlive⟩, decide_eq_true rfl⟩
  rw [hseen]
  exact List.mem_append_right _ List.mem_cons_self

/-- A sid is recorded twice only after 50 others, or when the clock has passed its time to live. -/
theorem record_twice {front mid rest : List Change} {t' : Time}
    (hafter : b.after (front ++ .record t sid :: (mid ++ .record t' sid :: rest)) = some b') :
    SecurityVault.maxSids ≤ (recordTimes mid).length ∨
      ∃ now ∈ recordTimes mid ++ [t'], (SecurityVault.sidTtlMs : ℤ) ≤ (now.val : ℤ) - t.val := by
  by_contra hnot
  simp only [not_or, not_exists, not_and, Int.not_le, Nat.not_le] at hnot
  obtain ⟨hroom, hsoon⟩ := hnot
  have hlive : ∀ now ∈ recordTimes mid ++ [t'], Vault.live now (sid, t) = true :=
    fun now hnow => decide_eq_true (hsoon now hnow)
  rw [after_append] at hafter
  obtain ⟨b₁, -, hafter⟩ := Option.bind_eq_some_iff.mp hafter
  rw [Bot.after, List.foldlM_cons] at hafter
  obtain ⟨b₂, hfirst, hafter⟩ := Option.bind_eq_some_iff.mp hafter
  rw [← Bot.after, after_append] at hafter
  obtain ⟨b₃, hmid, hafter⟩ := Option.bind_eq_some_iff.mp hafter
  rw [Bot.after, List.foldlM_cons] at hafter
  obtain ⟨b₄, hagain, -⟩ := Option.bind_eq_some_iff.mp hafter
  have hremembers := (remembers_record hfirst).after hmid
    (fun now hnow => hlive now (List.mem_append_left _ hnow)) (by omega)
  have hreplays := hremembers.replays (hlive t' (by simp))
  rw [change, if_pos hreplays] at hagain
  cases hagain

end Bot

/-! ## The pool -/

section Pool

variable [Platform] {ι : Type} [DecidableEq ι] {s₀ : Store} {b₀ : Bot} {entry : ι → Entry}

abbrev botStart (entry : ι → Entry) (s₀ : Store) : Pool GAS JSError (Option JSString) ι Store :=
  Pool.start (fun i => (entry i).program) s₀

/-- A log of changes that leads to this store, each made by an execution that was permitted it after
its own changes before. -/
structure Story (entry : ι → Entry) (b₀ : Bot) (s₀ : Store) (log : List (ι × Change)) (s : Store) :
    Prop where
  state : ∃ b, b₀.after (log.map Prod.snd) = some b ∧ b.Represents s
  frame : ∀ k ∉ ownKeys, s k = s₀ k
  permitted : ∀ front i c rest, log = front ++ (i, c) :: rest →
    Permits s₀ (entry i) (own i front) c

theorem Bot.after_told (h₀ : b₀.Represents s₀) {log : List (ι × Change)} {s : Store}
    (h : (botGuard s₀ entry).Told s₀ log s) :
    ∃ b, b₀.after (log.map Prod.snd) = some b ∧ b.Represents s := by
  induction h with
  | nil => exact ⟨b₀, rfl, h₀⟩
  | @snoc log d d' i c _ _ done ih =>
    obtain ⟨b, hb, hrep⟩ := ih
    obtain ⟨b', hchange, hrep'⟩ := done b hrep
    refine ⟨b', ?_, hrep'⟩
    rw [List.map_append, after_append, hb, Option.bind_some]
    exact (List.foldlM_cons ..).trans (by rw [hchange]; rfl)

variable {p : Pool GAS JSError (Option JSString) ι Store} {t : List (Event GAS ι)}
  {h : List (Event GAS ι × List Change)}

abbrev Watched (s₀ : Store) (entry : ι → Entry) (log : List (ι × Change))
    (p : Pool GAS JSError (Option JSString) ι Store) : Prop :=
  (botGuard s₀ entry).Watched (fun i x _ => Promises (entry i) x) s₀ log p

theorem Watched.story (h₀ : b₀.Represents s₀) {log : List (ι × Change)} (h : Watched s₀ entry log p) :
    Story entry b₀ s₀ log p.data where
  state := Bot.after_told h₀ h.told
  frame := h.sound.1
  permitted := fun _ _ _ _ hlog => h.told.permitted hlog

/-- The history of a run with these events: what each has changed, and that the log of these changes
tells what is stored. -/
structure History (entry : ι → Entry) (b₀ : Bot) (s₀ : Store) (t : List (Event GAS ι))
    (h : List (Event GAS ι × List Change)) (p : Pool GAS JSError (Option JSString) ι Store) : Prop where
  events : h.map Prod.fst = t
  chronicle : (botGuard s₀ entry).Chronicle (fun i x _ => Promises (entry i) x)
    (fun i => (entry i).program) s₀ h p
  story : Story entry b₀ s₀ (logOf h) p.data

theorem History.watched (hh : History entry b₀ s₀ t h p) : Watched s₀ entry (logOf h) p :=
  hh.chronicle.watched

theorem History.moment (hh : History entry b₀ s₀ t h p) {x : Event GAS ι} (hx : x ∈ t) :
    ∃ front made rest q r, h = front ++ (x, made) :: rest ∧
      (botGuard s₀ entry).Chronicle (fun i x _ => Promises (entry i) x) (fun i => (entry i).program)
        s₀ front q ∧
      Pool.Move (storeEffect True) q x r ∧
      (botGuard s₀ entry).Makes x (own x.tid (logOf front)) q.data r.data made := by
  rw [← hh.events] at hx
  obtain ⟨⟨y, made⟩, hy, rfl⟩ := List.mem_map.mp hx
  obtain ⟨front, rest, rfl⟩ := List.append_of_mem hy
  obtain ⟨q, r, hq, hmove, hmakes, -⟩ := hh.chronicle.moment
  exact ⟨front, made, rest, q, r, rfl, hq, hmove, hmakes⟩

theorem exists_history (h₀ : b₀.Represents s₀)
    (hrun : Pool.Course (storeEffect True) (botStart entry s₀) t p) :
    ∃ h, History entry b₀ s₀ t h p := by
  obtain ⟨h, hevents, hh⟩ := Guard.exists_chronicle (obeys_program s₀ entry) ⟨fun _ _ => rfl, b₀, h₀⟩ hrun
  exact ⟨h, hevents, hh, Watched.story h₀ hh.watched⟩

theorem exists_watched (h₀ : b₀.Represents s₀)
    (hrun : Pool.Runs (storeEffect True) (botStart entry s₀) p) : ∃ log, Watched s₀ entry log p := by
  obtain ⟨t, ht⟩ := Pool.runs_iff_course.mp hrun
  obtain ⟨h, hh⟩ := exists_history h₀ ht
  exact ⟨logOf h, hh.watched⟩

/-- **Every interleaving refines the bot.** What is stored at any instant is what a log of changes has
made of the bot, each change permitted to its execution when it was made. The history of a run begins
with those of its earlier moments, and the next command of any execution adds at most one change, which
takes the lock. -/
theorem pool_refines (h₀ : b₀.Represents s₀)
    (hrun : Pool.Course (storeEffect True) (botStart entry s₀) t p) :
    ∃ h, History entry b₀ s₀ t h p ∧
      (∀ front, front <+: h → ∃ q, History entry b₀ s₀ (front.map Prod.fst) front q ∧
        Pool.Runs (storeEffect True) q p) ∧
      ∀ x q, Pool.Move (storeEffect True) p x q →
        ∃ made, History entry b₀ s₀ (t ++ [x]) (h ++ [(x, made)]) q ∧
          (made = [] ∧ q.data = p.data ∨ p.holder = some x.tid ∧ ∃ c, made = [c]) := by
  obtain ⟨h, hh⟩ := exists_history h₀ hrun
  refine ⟨h, hh, fun front hfront => ?_, fun x q hmove => ?_⟩
  · obtain ⟨q, hq, hrest⟩ := hh.chronicle.upTo hfront
    exact ⟨q, ⟨rfl, hq, Watched.story h₀ hq.watched⟩, hrest⟩
  · obtain ⟨made, hmade, hmakes, hholds⟩ := hh.watched.move hmove
    rw [← logOf_concat] at hmade
    refine ⟨made, ⟨?_, hh.chronicle.next hmove hmakes hholds hmade, Watched.story h₀ hmade⟩, ?_⟩
    · rw [List.map_append, hh.events]
      rfl
    · generalize hd : q.data = d at hmakes
      cases hmakes with
      | nothing _ => exact .inl ⟨rfl, rfl⟩
      | @change _ c _ _ _ _ => exact .inr ⟨hholds (by simp), c, rfl⟩

/-! ## The lock -/

omit [Platform] [DecidableEq ι] in
theorem storeEffect_total (i : ι) (o : Op) (s : Store) :
    ∃ (r : o.Ret) (s' : Store), storeEffect True i o s r s' := by
  cases o with
  | getProperty k => exact ⟨s k, s, rfl, rfl⟩
  | setProperty k v => exact ⟨.ok (), s.set k v, .inl ⟨rfl, rfl⟩⟩
  | fetch r => exact ⟨.error (newError []), s, rfl⟩
  | sleep ms => exact ⟨(), s, rfl⟩
  | now => exact ⟨⟨0, Nat.zero_le _⟩, s, rfl⟩
  | console level text => exact ⟨(), s, rfl⟩

/-- Only the holder writes; it neither waits again nor sleeps nor asks the network; an execution that
has ended does not hold the lock, and has kept its promise; and all can come to their end, which leaves
the lock free. -/
structure Orderly (entry : ι → Entry) (p : Pool GAS JSError (Option JSString) ι Store) : Prop where
  writes : ∀ i k v c, p.thread i = .perform (.op (.setProperty k v)) c → p.holder = some i
  fetches : ∀ i r c, p.thread i = .perform (.op (.fetch r)) c → p.holder ≠ some i
  sleeps : ∀ i ms c, p.thread i = .perform (.op (.sleep ms)) c → p.holder ≠ some i
  waits : ∀ i n c, p.thread i = .perform (.waitLock n) c → p.holder ≠ some i
  releases : ∀ i c, p.thread i = .perform .releaseLock c → p.holder = some i
  outcome : ∀ i x, p.outcome? i = some x → p.holder ≠ some i ∧ Promises (entry i) x
  ends : ∃ q, Pool.Runs (storeEffect True) p q ∧ (∀ i, q.ended i = true) ∧ q.holder = none

/-- **The lock is held for writes only, and always given back.** -/
theorem pool_lock [Fintype ι] (h₀ : b₀.Represents s₀)
    (hrun : Pool.Runs (storeEffect True) (botStart entry s₀) p) : Orderly entry p := by
  obtain ⟨log, hlog⟩ := exists_watched h₀ hrun
  have hasks : ∀ i o c, p.thread i = .perform (.op o) c →
      if p.holder = some i then (botGuard s₀ entry).inside o
      else (botGuard s₀ entry).outside i (own i log) o := fun i o c hi => hlog.asks hi
  refine ⟨fun i k v c hi => ?_, fun i r c hi hholds => ?_, fun i ms c hi hholds => ?_,
    fun i n c hi hholds => ?_, fun i c hi => ?_, fun i x hx => ?_, ?_⟩
  · by_contra hholds
    have h := hasks i _ c hi
    rw [if_neg hholds] at h
    exact h
  · have h := hasks i _ c hi
    rw [if_pos hholds] at h
    exact h
  · have h := hasks i _ c hi
    rw [if_pos hholds] at h
    exact h
  · have h := hlog.thread i
    rw [hi, if_pos hholds] at h
    exact h
  · by_contra hholds
    have h := hlog.thread i
    rw [hi, if_neg hholds] at h
    exact h
  · exact hlog.ended (Pool.outcome?_eq_some.mp hx)
  · obtain ⟨q, hq, hended⟩ := Pool.exists_all_ended storeEffect_total p
    refine ⟨q, hq, hended, ?_⟩
    obtain ⟨log', hlog'⟩ := exists_watched h₀ (hrun.trans hq)
    cases hholder : q.holder with
    | none => rfl
    | some i =>
      have hend : ∃ x, q.thread i = Prog.orRaise x := by
        rcases Pool.ended_iff.mp (hended i) with ⟨a, ha⟩ | ⟨err, he⟩
        · exact ⟨.ok a, ha⟩
        · exact ⟨.error err, he⟩
      obtain ⟨x, hx⟩ := hend
      exact absurd hholder (hlog'.ended hx).1

/-! ## Who acts -/

omit [Platform] [DecidableEq ι] in
/-- A change that a request may make although it is not from the recipient. -/
def Change.onFailure : Change → Bool
  | .countFailure | .trip | .audit _ => true
  | _ => false

omit [DecidableEq ι] in
def Course (s₀ : Store) (e : Option WebhookEvent) (past : List Change) : Prop :=
  ∀ front c rest, past = front ++ c :: rest → Permits s₀ (.doPost e) front c

theorem Watched.asks_fetch {log : List (ι × Change)} (h : Watched s₀ entry log p) {i : ι} {e : Entry}
    (hi : entry i = e) {r : Request} {c : Except JSError Response → Action (Option JSString)}
    (hfetch : p.thread i = .perform (.op (.fetch r)) c) : Asks s₀ e (own i log) r := by
  have hasks := h.asks hfetch
  split_ifs at hasks
  · exact hasks.elim
  · exact hi ▸ hasks

theorem Story.course {log : List (ι × Change)} {s : Store} (h : Story entry b₀ s₀ log s) {i : ι}
    {e : Option WebhookEvent} (hi : entry i = .doPost e) : Course s₀ e (own i log) := by
  intro past c later hown
  obtain ⟨front, rest, hlog, rfl⟩ := own_split hown
  exact hi ▸ h.permitted front i c rest hlog

section Course

omit [DecidableEq ι]

variable {e : Option WebhookEvent} {past : List Change}

theorem Course.upTo (h : Course s₀ e past) {front : List Change} (hp : front <+: past) :
    Course s₀ e front := by
  obtain ⟨rest, rfl⟩ := hp
  rintro before c after rfl
  exact h before c (after ++ rest) (by simp)

theorem Course.of_mem (h : Course s₀ e past) {c : Change} (hc : c ∈ past) :
    ∃ front, Course s₀ e front ∧ front <+: past ∧ Permits s₀ (.doPost e) front c := by
  obtain ⟨front, rest, rfl⟩ := List.append_of_mem hc
  exact ⟨front, h.upTo (List.prefix_append _ _), List.prefix_append _ _, h front c rest rfl⟩

theorem Course.recorded (h : Course s₀ e past) (hrecorded : Recorded past) :
    let q := SecurityGate.showingOf (SecurityGate.paramsOf e) s₀
    q.tokenOk = true ∧ q.fromOk = true := by
  obtain ⟨now, sid, hmem⟩ := hrecorded
  obtain ⟨front, -, -, hpermits⟩ := h.of_mem hmem
  exact ⟨hpermits.1, hpermits.2.1⟩

theorem Course.token (h : Course s₀ e past) (hne : past ≠ []) :
    (SecurityGate.showingOf (SecurityGate.paramsOf e) s₀).tokenOk = true := by
  cases past with
  | nil => exact absurd rfl hne
  | cons c rest =>
    have hpermits := h [] c rest rfl
    have hnone : ¬ Admitted [] := fun ha => by
      obtain ⟨now, sid, hmem⟩ := ha.recorded
      cases hmem
    cases c with
    | countFailure | record now sid => exact hpermits.1
    | zeroFailures => exact absurd hpermits hnone
    | add t | remove t | setPaused paused => exact absurd hpermits.1 hnone
    | trip =>
      obtain ⟨entry, hentry⟩ := hpermits
      cases hentry
    | reopen =>
      obtain ⟨-, now, sid, hrecord⟩ := hpermits
      cases hrecord
    | audit entry =>
      obtain ⟨-, ⟨-, hpast⟩ | ⟨-, first, hpast⟩ | ⟨-, htoken, -⟩ | ⟨-, now, sid, hpast⟩⟩ := hpermits
      · cases hpast
      · cases hpast
      · exact htoken
      · cases hpast
    | claim n => exact hpermits.elim

theorem Course.failures (h : Course s₀ e past)
    (hfrom : (SecurityGate.showingOf (SecurityGate.paramsOf e) s₀).fromOk = false) :
    ∀ c ∈ past, c.onFailure = true := by
  intro c hc
  obtain ⟨front, hfront, -, hpermits⟩ := h.of_mem hc
  have hnone : ¬ Recorded front := fun hrecorded => by
    have hok := (hfront.recorded hrecorded).2
    rw [hfrom] at hok
    cases hok
  cases c with
  | countFailure | trip | audit entry => rfl
  | record now sid =>
    have hok := hpermits.2.1
    rw [hfrom] at hok
    cases hok
  | reopen =>
    obtain ⟨-, now, sid, rfl⟩ := hpermits
    exact absurd ⟨now, sid, List.mem_singleton_self _⟩ hnone
  | zeroFailures => exact absurd hpermits.recorded hnone
  | add t | remove t | setPaused paused => exact absurd hpermits.1.recorded hnone
  | claim n => exact hpermits.elim

theorem Course.recorded_of_acts (h : Course s₀ e past) {c : Change} (hc : c ∈ past)
    (hvault : c.onVault = false) : Recorded past := by
  obtain ⟨front, -, hfront, hpermits⟩ := h.of_mem hc
  cases c with
  | add t | remove t | setPaused paused => exact hpermits.1.recorded.mono hfront
  | claim n => exact hpermits.elim
  | countFailure | zeroFailures | trip | reopen | record now sid | audit entry => cases hvault

theorem Course.once (h : Course s₀ e past) : past.countP (fun c => !c.onVault) ≤ 1 := by
  induction past using List.reverseRecOn with
  | nil => simp
  | append_singleton past c ih =>
    rw [List.countP_append, List.countP_singleton]
    cases hc : c.onVault with
    | true => simpa using ih (h.upTo (List.prefix_append _ _))
    | false =>
      have hpermits := h past c [] rfl
      have hvault : ∀ c ∈ past, c.onVault = true := by
        cases c with
        | add t | remove t | setPaused paused => exact hpermits.1.vault
        | claim n => exact hpermits.elim
        | countFailure | zeroFailures | trip | reopen | record now sid | audit entry => cases hc
      rw [List.countP_eq_zero.mpr fun c' hc' => by simp [hvault c' hc']]
      simp

end Course

/-- What a request may have done and may be about to ask, by what it shows. -/
def Authorized (s₀ : Store) (e : Option WebhookEvent) (past : List Change)
    (next : Prog GAS JSError (Option JSString)) : Prop :=
  let q := SecurityGate.showingOf (SecurityGate.paramsOf e) s₀
  (q.tokenOk = false → past = [] ∧ ∀ r c, next ≠ .perform (.op (.fetch r)) c) ∧
  (q.fromOk = false → (∀ c ∈ past, c.onFailure = true) ∧
    ∀ r c, next = .perform (.op (.fetch r)) c →
      TextRequest s₀ Replies.sealedNotice r ∧ .trip ∈ past) ∧
  past.countP (fun c => !c.onVault) ≤ 1 ∧
  (∀ c ∈ past, c.onVault = false → Recorded past ∧ q.tokenOk = true ∧ q.fromOk = true)

/-- **Authority in any interleaving.** A request with a wrong token changes nothing and asks the network
for nothing; one from a wrong sender only counts failures and sends no text but the notice of the seal
that it has tripped; and the watchlist changes at most once for a request, after its MessageSid. -/
theorem pool_authority (h₀ : b₀.Represents s₀)
    (hrun : Pool.Course (storeEffect True) (botStart entry s₀) t p) :
    ∃ h, History entry b₀ s₀ t h p ∧
      ∀ i e, entry i = .doPost e → Authorized s₀ e (own i (logOf h)) (p.thread i) := by
  obtain ⟨h, hh⟩ := exists_history h₀ hrun
  refine ⟨h, hh, fun i e hi => ?_⟩
  have hcourse := hh.story.course hi
  have hasks : ∀ r c, p.thread i = .perform (.op (.fetch r)) c →
      Asks s₀ (.doPost e) (own i (logOf h)) r := fun r c hfetch => hh.watched.asks_fetch hi hfetch
  refine ⟨fun htoken => ?_, fun hfrom => ⟨hcourse.failures hfrom, fun r c hfetch => ?_⟩, hcourse.once,
    fun c hc hvault => ?_⟩
  · have hnil : own i (logOf h) = [] := by
      by_contra hne
      rw [hcourse.token hne] at htoken
      cases htoken
    refine ⟨hnil, fun r c hfetch => ?_⟩
    have h := hasks r c hfetch
    rw [hnil] at h
    rcases h with ⟨_, -, -, -, ⟨_, _, hmem⟩, -⟩ | ⟨_, -, ⟨_, _, hmem⟩ | ⟨-, hmem⟩⟩ <;> cases hmem
  · have hnone : ¬ Recorded (own i (logOf h)) := fun hrecorded => by
      have hok := (hcourse.recorded hrecorded).2
      rw [hfrom] at hok
      cases hok
    rcases hasks r c hfetch with ⟨_, -, -, -, hrecorded, -⟩ | ⟨text, hcarries, hrecorded | ⟨rfl, htrip⟩⟩
    · exact absurd hrecorded hnone
    · exact absurd hrecorded hnone
    · exact ⟨hcarries, htrip⟩
  · have hrecorded := hcourse.recorded_of_acts hc hvault
    exact ⟨hrecorded, hcourse.recorded hrecorded⟩

/-! ## Once for each MessageSid -/

omit [DecidableEq ι] in
theorem TextRequest.carries {text : JSString} {r : Request} (h : TextRequest s₀ text r) :
    SmsService.Carries text r := by
  obtain ⟨url, hurl, rfl⟩ := h
  exact ⟨SmsService.url_host hurl, rfl⟩

omit [Platform] in
def textsOf (i : ι) (t : List (Event GAS ι)) : List JSString :=
  SmsService.texts (opsIn (Pool.ownEvents i t))

omit [Platform] in
theorem mem_textsOf {i : ι} {text : JSString} :
    text ∈ textsOf i t ↔ ∃ r a, .op i (.fetch r) a ∈ t ∧ SmsService.Carries text r := by
  constructor
  · intro h
    obtain ⟨r, hr, hcarries⟩ := SmsService.mem_texts h
    obtain ⟨j, o, a, hown, hop⟩ := mem_opsIn.mp hr
    cases hop
    obtain ⟨hmem, hj⟩ := Pool.mem_ownEvents.mp hown
    exact ⟨r, a, (show j = i from hj) ▸ hmem, hcarries⟩
  · rintro ⟨r, a, hmem, hhost, hbody⟩
    refine List.mem_filterMap.mpr ⟨.op (.fetch r), ?_, ?_⟩
    · exact mem_opsIn.mpr ⟨i, _, a, Pool.mem_ownEvents.mpr ⟨hmem, rfl⟩, rfl⟩
    · rw [← hbody]
      exact if_pos (List.isPrefixOf_iff_prefix.mpr hhost)

/-- A request has changed the watchlist, or has asked the network for more than the notice. -/
def Acts (s₀ : Store) (h : List (Event GAS ι × List Change)) (i : ι) : Prop :=
  (∃ c ∈ own i (logOf h), c.onVault = false) ∨
    ∃ r a, .op i (.fetch r) a ∈ h.map Prod.fst ∧ ¬ TextRequest s₀ Replies.sealedNotice r

theorem acts_of_textsOf {i : ι} {text : JSString} (hmem : text ∈ textsOf i (h.map Prod.fst))
    (hne : text ≠ Replies.sealedNotice) : Acts s₀ h i := by
  obtain ⟨r, a, hx, hcarries⟩ := mem_textsOf.mp hmem
  refine .inr ⟨r, a, hx, fun hnotice => hne ?_⟩
  exact Option.some.inj (hcarries.2.symm.trans hnotice.carries.2)

/-- The sid was recorded for one of the two and later for the other, and in between 50 more were
recorded or the clock has passed its time to live. -/
def Spaced (log : List (ι × Change)) (i j : ι) (sid : JSString) : Prop :=
  ∃ front mid rest t t', log = front ++ (i, .record t sid) :: (mid ++ (j, .record t' sid) :: rest) ∧
    (SecurityVault.maxSids ≤ (Bot.recordTimes (mid.map Prod.snd)).length ∨
      ∃ now ∈ Bot.recordTimes (mid.map Prod.snd) ++ [t'],
        (SecurityVault.sidTtlMs : ℤ) ≤ (now.val : ℤ) - t.val)

theorem History.acts_recorded (hh : History entry b₀ s₀ t h p) {i : ι} {e : Option WebhookEvent}
    (hi : entry i = .doPost e) {sid : JSString}
    (hsid : SecurityVault.sidOf (SecurityGate.paramsOf e).messageSid = some sid)
    (hacts : Acts s₀ h i) : ∃ now, (i, .record now sid) ∈ logOf h := by
  have hcourse := hh.story.course hi
  have hrecorded : Recorded (own i (logOf h)) := by
    rcases hacts with ⟨c, hc, hvault⟩ | ⟨r, a, hmem, hnotice⟩
    · exact hcourse.recorded_of_acts hc hvault
    · obtain ⟨front, made, rest, q, q', rfl, hq, hmove, -⟩ := hh.moment (hh.events ▸ hmem)
      have hfront : own i (logOf front) <+: own i (logOf (front ++ (.op i (.fetch r) a, made) :: rest)) := by
        rw [logOf_append, own_append]
        exact List.prefix_append _ _
      cases hmove with
      | op at_op _ =>
        rcases Watched.asks_fetch hq.watched hi at_op with
          ⟨_, -, -, -, hrecorded, -⟩ | ⟨text, hcarries, hrecorded | ⟨rfl, -⟩⟩
        · exact hrecorded.mono hfront
        · exact hrecorded.mono hfront
        · exact absurd hcarries hnotice
  obtain ⟨now, sid', hmem⟩ := hrecorded
  obtain ⟨front, -, -, hpermits⟩ := hcourse.of_mem hmem
  obtain rfl : sid' = sid := Option.some.inj (hpermits.2.2.1.symm.trans hsid)
  exact ⟨now, mem_own.mp hmem⟩

theorem Story.spaced {log : List (ι × Change)} {s : Store} (h : Story entry b₀ s₀ log s) {i j : ι}
    {t t' : Time} {sid : JSString} {front mid rest : List (ι × Change)}
    (hlog : log = front ++ (i, .record t sid) :: (mid ++ (j, .record t' sid) :: rest)) :
    Spaced log i j sid := by
  obtain ⟨b, hb, -⟩ := h.state
  have hafter : b₀.after (front.map Prod.snd ++ .record t sid :: (mid.map Prod.snd ++
      .record t' sid :: rest.map Prod.snd)) = some b := by
    rw [hlog] at hb
    simpa using hb
  exact ⟨front, mid, rest, t, t', hlog, Bot.record_twice hafter⟩

/-- **A message acts once.** Of two executions for the same MessageSid, as when a webhook is delivered
twice, retried or replayed later in the run, both have acted only if 50 other messages were recorded in
between, or its time to live had passed. -/
theorem pool_at_most_once (h₀ : b₀.Represents s₀)
    (hrun : Pool.Course (storeEffect True) (botStart entry s₀) t p) :
    ∃ h, History entry b₀ s₀ t h p ∧ ∀ i j e e' sid, i ≠ j →
      entry i = .doPost e → entry j = .doPost e' →
      SecurityVault.sidOf (SecurityGate.paramsOf e).messageSid = some sid →
      SecurityVault.sidOf (SecurityGate.paramsOf e').messageSid = some sid →
      Acts s₀ h i → Acts s₀ h j → Spaced (logOf h) i j sid ∨ Spaced (logOf h) j i sid := by
  obtain ⟨h, hh⟩ := exists_history h₀ hrun
  refine ⟨h, hh, fun i j e e' sid hij hi hj hsid hsid' hacts hacts' => ?_⟩
  obtain ⟨t, ht⟩ := hh.acts_recorded hi hsid hacts
  obtain ⟨t', ht'⟩ := hh.acts_recorded hj hsid' hacts'
  have hne : (i, Change.record t sid) ≠ (j, Change.record t' sid) := fun h => hij (congrArg Prod.fst h)
  rcases Log.split_two ht ht' hne with ⟨front, mid, rest, hsplit⟩ | ⟨front, mid, rest, hsplit⟩
  · exact .inl (hh.story.spaced hsplit)
  · exact .inr (hh.story.spaced hsplit)

end Pool

section
open AppsScript

theorem storeEffect_sampleAnswer {ι : Type} (i : ι) (o : Op) (s : Store) :
    storeEffect True i o s (sampleAnswer i o s).1 (sampleAnswer i o s).2 :=
  storeEffect_host i o ⟨s, sampleEnv⟩

/-- The recipient's "pause", delivered twice, and a daily run. -/
def deliveredTwice : Option Bool → Entry
  | some _ => .doPost pauseRequest
  | none => .runDailyAlert

def turns : List (Option Bool × Bool) :=
  (List.replicate 60 [(some true, true), (none, true), (some false, true)]).flatten

def turnsPool : Pool GAS JSError (Option JSString) (Option Bool) Store :=
  turns.foldl (Pool.play sampleAnswer) (botStart deliveredTwice sampleStore)

def turnsEvents : List (Event GAS (Option Bool)) :=
  Pool.eventsOf sampleAnswer (botStart deliveredTwice sampleStore) turns

theorem course_turnsPool :
    Pool.Course (storeEffect True) (botStart deliveredTwice sampleStore) turnsEvents turnsPool :=
  Pool.course_play storeEffect_sampleAnswer turns

theorem runs_turnsPool :
    Pool.Runs (storeEffect True) (botStart deliveredTwice sampleStore) turnsPool :=
  Pool.runs_iff_course.mpr ⟨_, course_turnsPool⟩

theorem pool_refines_turns : ∃ h, History deliveredTwice .initial sampleStore turnsEvents h turnsPool ∧
    (∀ front, front <+: h → ∃ q,
      History deliveredTwice .initial sampleStore (front.map Prod.fst) front q ∧
        Pool.Runs (storeEffect True) q turnsPool) ∧
    ∀ x q, Pool.Move (storeEffect True) turnsPool x q → ∃ made,
      History deliveredTwice .initial sampleStore (turnsEvents ++ [x]) (h ++ [(x, made)]) q ∧
        (made = [] ∧ q.data = turnsPool.data ∨ turnsPool.holder = some x.tid ∧ ∃ c, made = [c]) :=
  pool_refines (Bot.represents_initial installed_sampleStore) course_turnsPool

theorem pool_lock_turns : Orderly deliveredTwice turnsPool :=
  pool_lock (Bot.represents_initial installed_sampleStore) runs_turnsPool

def guessRequest : Option WebhookEvent :=
  some ⟨some ⟨some (js "guess"), some (js "+15550199"), some (js "pause"), some (js "SM2")⟩⟩

def knocking : Option Bool → Entry
  | some true => .doPost pauseRequest
  | none => .doPost guessRequest
  | some false => .doPost SecurityGate.probeRequest.event

def knocks : List (Option Bool × Bool) :=
  (List.replicate 60 [(some true, true), (none, true)]).flatten ++ List.replicate 60 (some false, true)

def knocksPool : Pool GAS JSError (Option JSString) (Option Bool) Store :=
  knocks.foldl (Pool.play sampleAnswer) (botStart knocking sampleStore)

def knocksEvents : List (Event GAS (Option Bool)) :=
  Pool.eventsOf sampleAnswer (botStart knocking sampleStore) knocks

theorem course_knocksPool :
    Pool.Course (storeEffect True) (botStart knocking sampleStore) knocksEvents knocksPool :=
  Pool.course_play storeEffect_sampleAnswer knocks

theorem pool_authority_knocks : ∃ h, History knocking .initial sampleStore knocksEvents h knocksPool ∧
    (∀ i e, knocking i = .doPost e →
      Authorized sampleStore e (own i (logOf h)) (knocksPool.thread i)) ∧
    own none (logOf h) = [] ∧ (∀ c ∈ own (some false) (logOf h), c.onFailure = true) ∧
    knocksPool.data .paused = some (js "true") ∧ knocksPool.data .secFailures = some (js "1") := by
  obtain ⟨h, hh, hauthorized⟩ :=
    pool_authority (Bot.represents_initial installed_sampleStore) course_knocksPool
  refine ⟨h, hh, hauthorized, ?_, ?_, by decide +kernel, by decide +kernel⟩
  · have htoken : (SecurityGate.showingOf (SecurityGate.paramsOf guessRequest) sampleStore).tokenOk =
        false := by decide
    exact ((hauthorized none guessRequest rfl).1 htoken).1
  · have hfrom : (SecurityGate.showingOf (SecurityGate.paramsOf SecurityGate.probeRequest.event)
        sampleStore).fromOk = false := by decide
    exact ((hauthorized (some false) SecurityGate.probeRequest.event rfl).2.1 hfrom).1

/-- The clock of the second delivery is a day ahead. -/
def dayLater (i : Option Bool) (o : Op) (s : Store) : o.Ret × Store :=
  match o with
  | .now => (if i = some false then ⟨86400000, by decide⟩ else ⟨0, epoch_le⟩, s)
  | o => sampleAnswer i o s

theorem storeEffect_dayLater (i : Option Bool) (o : Op) (s : Store) :
    storeEffect True i o s (dayLater i o s).1 (dayLater i o s).2 := by
  cases o with
  | now => rfl
  | _ => exact storeEffect_sampleAnswer i _ s

def oneThenOther : List (Option Bool × Bool) :=
  List.replicate 60 (some true, true) ++ List.replicate 60 (some false, true)

def retriedPool : Pool GAS JSError (Option JSString) (Option Bool) Store :=
  oneThenOther.foldl (Pool.play dayLater) (botStart deliveredTwice sampleStore)

def retriedEvents : List (Event GAS (Option Bool)) :=
  Pool.eventsOf dayLater (botStart deliveredTwice sampleStore) oneThenOther

theorem course_retriedPool :
    Pool.Course (storeEffect True) (botStart deliveredTwice sampleStore) retriedEvents retriedPool :=
  Pool.course_play storeEffect_dayLater oneThenOther

/-- Both deliveries pause the bot and are answered. -/
theorem pool_at_most_once_retried : ∃ h,
    History deliveredTwice .initial sampleStore retriedEvents h retriedPool ∧
    Acts sampleStore h (some true) ∧ Acts sampleStore h (some false) ∧
    (Spaced (logOf h) (some true) (some false) (js "SM1") ∨
      Spaced (logOf h) (some false) (some true) (js "SM1")) := by
  have hsid : SecurityVault.sidOf (SecurityGate.paramsOf pauseRequest).messageSid = some (js "SM1") := by
    decide
  obtain ⟨h, hh, hspaced⟩ :=
    pool_at_most_once (Bot.represents_initial installed_sampleStore) course_retriedPool
  have hacts (b : Bool) : Acts sampleStore h (some b) := by
    have htexts : textsOf (some b) retriedEvents = [Replies.paused] := by cases b <;> decide +kernel
    have hmem : Replies.paused ∈ textsOf (some b) (h.map Prod.fst) := by
      rw [hh.events, htexts]
      exact List.mem_singleton_self _
    exact acts_of_textsOf hmem (by decide +kernel)
  exact ⟨h, hh, hacts true, hacts false, hspaced (some true) (some false) pauseRequest pauseRequest _
    (by decide) rfl rfl hsid hsid (hacts true) (hacts false)⟩

end
end Spazito
