import Spazito.AppsScript
import Spazito.Recency
import Spazito.VaultState

set_option autoImplicit false

/-!
# What the replay set remembers

Replay checks one after another, over a store without a replay set: the stored array is the end of the
history of recorded sids, cut by age and by number.
-/
namespace Spazito
open Ecma Script

namespace SecurityVault

/-- One call of the replay check, with what the world outside answers. -/
structure SidCheck where
  sid : Value
  env : Env

namespace SidCheck

def clean (x : SidCheck) : Option JSString :=
  match x.sid with
  | .str s => if trim s = [] then none else some (trim s)
  | _ => none

abbrev now (x : SidCheck) : Time := x.env.clock 0

end SidCheck

section Runs

variable [Platform]

def SidCheck.result (x : SidCheck) (s : Store) : Result GAS JSError Bool World :=
  (checkAndRecordSid x.sid).run host ⟨s, x.env⟩

def afterCheck (s : Store) (x : SidCheck) : Store := (x.result s).state.store

def recorded : Store → List SidCheck → List (JSString × Time)
  | _, [] => []
  | s, x :: xs =>
    (match (x.result s).outcome with
      | .ok false => (x.clean.map fun sid => (sid, x.now)).toList
      | _ => []) ++ recorded (afterCheck s x) xs

/-- The recorded sids that are unexpired at a time, the last fifty of them. -/
def remembered (now : Time) (history : List (JSString × Time)) : List (JSString × Time) :=
  lastOf maxSids (history.filter (Vault.live now))

structure Past (history : List (JSString × Time)) (now : Time) : Prop where
  ordered : history.Pairwise fun x y => x.2.val ≤ y.2.val
  past : ∀ x ∈ history, x.2.val ≤ now.val

omit [Platform] in
theorem Past.persists {history : List (JSString × Time)} {now : Time} (h : Past history now)
    (t : Time) : Recency.Persists (Vault.live t) history := by
  refine h.ordered.imp fun {x y} hxy hx => ?_
  simp only [Vault.live, decide_eq_true_eq] at hx ⊢
  omega

omit [Platform] in
theorem Past.append {history : List (JSString × Time)} {before now : Time} (h : Past history before)
    (hle : before.val ≤ now.val) (sid : JSString) : Past (history ++ [(sid, now)]) now where
  ordered := by
    refine List.pairwise_append.mpr ⟨h.ordered, List.pairwise_singleton _ _, fun x hx y hy => ?_⟩
    rw [List.mem_singleton.mp hy]
    exact (h.past x hx).trans hle
  past := by
    intro x hx
    rcases List.mem_append.mp hx with hx | hx
    · exact (h.past x hx).trans hle
    · rw [List.mem_singleton.mp hx]

omit [Platform] in
theorem live_of_le {before now : Time} (hle : before.val ≤ now.val) (x : JSString × Time)
    (h : Vault.live now x = true) : Vault.live before x = true := by
  simp only [Vault.live, decide_eq_true_eq] at h ⊢
  omega

omit [Platform] in
theorem live_self (sid : JSString) (now : Time) : Vault.live now (sid, now) = true := by
  simp [Vault.live, sidTtlMs]

/-- The store holds what is remembered of a history, as of some time in the past. -/
structure Holds (s : Store) (history : List (JSString × Time)) (now : Time) : Prop where
  past : Past history now
  stored : s.array .secSeenSids = (remembered now history).map sidEntry
  nodup : ((remembered now history).map Prod.fst).Nodup

omit [Platform] in
theorem Holds.replays {s : Store} {history : List (JSString × Time)} {before now : Time}
    (h : Holds s history before) (hle : before.val ≤ now.val) (sid : JSString) :
    (⟨0, false, remembered before history⟩ : Vault).replays now sid = true ↔
      ∃ t : Time, (sid, t) ∈ lastOf maxSids history ∧ (now.val : ℤ) - t.val < sidTtlMs := by
  have hfresh : (⟨0, false, remembered before history⟩ : Vault).fresh now =
      Recency.kept (Vault.live now) maxSids history :=
    Recency.filter_kept (h.past.persists now) (live_of_le hle) maxSids
  rw [Vault.replays, hfresh, List.any_eq_true]
  constructor
  · rintro ⟨⟨sid', t⟩, hmem, heq⟩
    obtain rfl : sid' = sid := by simpa using heq
    obtain ⟨hlast, hlive⟩ := (Recency.mem_kept (h.past.persists now)).mp hmem
    exact ⟨t, hlast, by simpa [Vault.live] using hlive⟩
  · rintro ⟨t, hlast, hage⟩
    exact ⟨(sid, t), (Recency.mem_kept (h.past.persists now)).mpr ⟨hlast, by simpa [Vault.live] using hage⟩,
      by simp⟩

omit [Platform] in
theorem Holds.record {s : Store} {history : List (JSString × Time)} {before now : Time}
    (h : Holds s history before) (hle : before.val ≤ now.val) {sid : JSString}
    (hnew : (⟨0, false, remembered before history⟩ : Vault).replays now sid = false) :
    ((⟨0, false, remembered before history⟩ : Vault).record now sid).seen =
      remembered now (history ++ [(sid, now)]) ∧
    ((remembered now (history ++ [(sid, now)])).map Prod.fst).Nodup := by
  have hseen : ((⟨0, false, remembered before history⟩ : Vault).record now sid).seen =
      remembered now (history ++ [(sid, now)]) :=
    Recency.kept_append (h.past.persists now) (live_of_le hle) (live_self sid now) maxSids
  refine ⟨hseen, ?_⟩
  rw [← hseen]
  have hall : (((⟨0, false, remembered before history⟩ : Vault).fresh now ++ [(sid, now)]).map
      Prod.fst).Nodup := by
    rw [List.map_append, List.map_singleton]
    refine List.nodup_append.mpr ⟨h.nodup.sublist (List.filter_sublist.map _), List.nodup_singleton _, ?_⟩
    intro x hx y hy
    rw [List.mem_singleton.mp hy]
    rintro rfl
    obtain ⟨entry, hentry, heq⟩ := List.mem_map.mp hx
    rw [Vault.replays, List.any_eq_false] at hnew
    exact hnew entry hentry (by simpa using heq)
  exact hall.sublist ((List.drop_sublist _ _).map _)

theorem recorded_append (s : Store) (xs ys : List SidCheck) :
    recorded s (xs ++ ys) = recorded s xs ++ recorded (xs.foldl afterCheck s) ys := by
  induction xs generalizing s with
  | nil => rfl
  | cons x xs ih => rw [List.cons_append, recorded, recorded, ih, List.append_assoc, List.foldl_cons]

/-- What one call makes of the set: it reports a replay and leaves the set, or records its sid. -/
inductive Checks (s : Store) (history : List (JSString × Time)) (x : SidCheck) : Prop
  | replayed (hwhy : x.clean = none ∨ x.env.lock 0 = false ∨ ∃ sid, x.clean = some sid ∧
        ∃ t : Time, (sid, t) ∈ lastOf maxSids history ∧ (x.now.val : ℤ) - t.val < sidTtlMs)
      (hout : (x.result s).outcome = .ok true) (hsame : afterCheck s x = s)
  | fresh (sid : JSString) (hsid : x.clean = some sid) (hlock : x.env.lock 0 = true)
      (hnew : ¬ ∃ t : Time, (sid, t) ∈ lastOf maxSids history ∧ (x.now.val : ℤ) - t.val < sidTtlMs)
      (hout : (x.result s).outcome = .ok false)
      (hset : afterCheck s x = s.set .secSeenSids (sidsText (remembered x.now (history ++ [(sid, x.now)]))))

theorem Holds.checks {s : Store} {history : List (JSString × Time)} {before : Time}
    (h : Holds s history before) (x : SidCheck) (hle : before.val ≤ x.now.val) (hw : x.env.Writes) :
    Checks s history x := by
  obtain ⟨arg, env⟩ := x
  have hend {y : Bool} {v : World} (hexec : (checkAndRecordSid arg).exec host ⟨s, env⟩ = (.ok y, v)) :
      ((SidCheck.mk arg env).result s).outcome = .ok y ∧ afterCheck s ⟨arg, env⟩ = v.store :=
    ⟨congrArg Prod.fst hexec, congrArg (fun z => (Prod.snd z).store) hexec⟩
  cases arg with
  | str text =>
    by_cases hblank : trim text = []
    · have hexec : (checkAndRecordSid (.str text)).exec host ⟨s, env⟩ = (.ok true, ⟨s, env⟩) := by
        rw [checkAndRecordSid, if_pos hblank]
        rfl
      exact .replayed (.inl (if_pos hblank)) (hend hexec).1 (hend hexec).2
    · have hclean : (SidCheck.mk (.str text) env).clean = some (trim text) := if_neg hblank
      cases hlock : env.lock 0 with
      | false =>
        have hexec : (checkAndRecordSid (.str text)).exec host ⟨s, env⟩ =
            (.ok true, ⟨s, env.afterLock⟩) := by
          simp only [checkAndRecordSid, hblank, ↓reduceIte, exec_withScriptLock, hlock]
          rfl
        exact .replayed (.inr (.inl hlock)) (hend hexec).1 (hend hexec).2
      | true =>
        have hexec := exec_checkAndRecordSid_locked (w := ⟨s, env⟩)
          (v := ⟨0, false, remembered before history⟩) h.stored hw text hblank hlock
        have hrep := h.replays hle (trim text)
        cases hr : (⟨0, false, remembered before history⟩ : Vault).replays (env.clock 0) (trim text) with
        | true =>
          rw [if_pos hr] at hexec
          exact .replayed (.inr (.inr ⟨_, hclean, hrep.mp hr⟩)) (hend hexec).1 (hend hexec).2
        | false =>
          rw [if_neg (by simpa using hr)] at hexec
          refine .fresh _ hclean hlock (fun hex => ?_) (hend hexec).1 ?_
          · rw [hrep.mpr hex] at hr
            cases hr
          · rw [(hend hexec).2, (h.record hle hr).1]
  | _ => exact .replayed (.inl rfl) rfl rfl

theorem recorded_replayed {s : Store} {x : SidCheck} (h : (x.result s).outcome = .ok true) :
    recorded s [x] = [] := by
  rw [recorded, h]
  rfl

theorem recorded_fresh {s : Store} {x : SidCheck} {sid : JSString} (hsid : x.clean = some sid)
    (h : (x.result s).outcome = .ok false) : recorded s [x] = [(sid, x.now)] := by
  rw [recorded, h, hsid]
  rfl

omit [Platform] in
theorem array_set_sidsText (s : Store) (seen : List (JSString × Time)) :
    (s.set .secSeenSids (sidsText seen)).array .secSeenSids = seen.map sidEntry := by
  simp [Store.array, parse_sidsText]

theorem Checks.holds {s : Store} {history : List (JSString × Time)} {before : Time} {x : SidCheck}
    (hx : Checks s history x) (h : Holds s history before) (hle : before.val ≤ x.now.val) :
    ∃ latest : Time, latest.val ≤ x.now.val ∧
      Holds (afterCheck s x) (history ++ recorded s [x]) latest := by
  cases hx with
  | replayed hwhy hout hsame =>
    rw [recorded_replayed hout, hsame, List.append_nil]
    exact ⟨before, hle, h⟩
  | fresh sid hsid hlock hnew hout hset =>
    have hrep : (⟨0, false, remembered before history⟩ : Vault).replays x.now sid = false := by
      rw [← Bool.not_eq_true, h.replays hle]
      exact hnew
    rw [recorded_fresh hsid hout, hset]
    exact ⟨x.now, le_rfl, h.past.append hle sid, array_set_sidsText s _, (h.record hle hrep).2⟩

theorem Holds.run {s : Store} {history : List (JSString × Time)} {before : Time}
    (h : Holds s history before) (xs : List SidCheck) (hw : ∀ x ∈ xs, x.env.Writes)
    (hmono : xs.Pairwise fun x y => x.now.val ≤ y.now.val) (hle : ∀ x ∈ xs, before.val ≤ x.now.val) :
    ∃ latest : Time, (∀ t : Time, before.val ≤ t.val → (∀ x ∈ xs, x.now.val ≤ t.val) →
        latest.val ≤ t.val) ∧
      Holds (xs.foldl afterCheck s) (history ++ recorded s xs) latest := by
  induction xs generalizing s history before with
  | nil => exact ⟨before, fun _ ht _ => ht, by simpa [recorded] using h⟩
  | cons x xs ih =>
    obtain ⟨hx, hmono⟩ := List.pairwise_cons.mp hmono
    obtain ⟨hwx, hw⟩ := List.forall_mem_cons.mp hw
    obtain ⟨hlex, -⟩ := List.forall_mem_cons.mp hle
    obtain ⟨middle, hmiddle, hone⟩ := (h.checks x hlex hwx).holds h hlex
    obtain ⟨latest, hlatest, hrun⟩ := ih hone hw hmono fun y hy => hmiddle.trans (hx y hy)
    refine ⟨latest, fun t _ hall => ?_, ?_⟩
    · obtain ⟨hxt, hall⟩ := List.forall_mem_cons.mp hall
      exact hlatest t (hmiddle.trans hxt) hall
    · have hsplit : recorded s (x :: xs) = recorded s [x] ++ recorded (afterCheck s x) xs :=
        recorded_append s [x] xs
      rw [hsplit, ← List.append_assoc, List.foldl_cons]
      exact hrun

omit [Platform] in
theorem holds_unset {s : Store} (h : s .secSeenSids = none) (now : Time) : Holds s [] now where
  past := ⟨List.Pairwise.nil, by simp⟩
  stored := by
    rw [Store.array, h]
    rfl
  nodup := List.nodup_nil

/-- **What the replay set means.** After any calls, the next one reports a replay exactly when its sid
is none, or cannot be checked, or is one of the last fifty recorded and not yet expired; and it records
its sid exactly when it does not report one. -/
theorem checks_exact {s₀ : Store} (h₀ : s₀ .secSeenSids = none) (xs : List SidCheck) (y : SidCheck)
    (hw : ∀ x ∈ xs ++ [y], x.env.Writes)
    (hmono : (xs ++ [y]).Pairwise fun x y => x.now.val ≤ y.now.val) :
    let s := xs.foldl afterCheck s₀
    let history := recorded s₀ xs
    ∃ replayed, (y.result s).outcome = .ok replayed ∧
      (replayed = true ↔ y.clean = none ∨ y.env.lock 0 = false ∨ ∃ sid, y.clean = some sid ∧
        ∃ t : Time, (sid, t) ∈ lastOf maxSids history ∧ (y.now.val : ℤ) - t.val < sidTtlMs) ∧
      (replayed = true → recorded s₀ (xs ++ [y]) = history ∧ (y.result s).state.store = s) ∧
      (replayed = false → ∃ sid, y.clean = some sid ∧
        recorded s₀ (xs ++ [y]) = history ++ [(sid, y.now)] ∧
        let kept := lastOf maxSids ((history ++ [(sid, y.now)]).filter (Vault.live y.now))
        (y.result s).state.store = s.set .secSeenSids (sidsText kept) ∧
          kept <:+ history ++ [(sid, y.now)] ∧ (kept.map Prod.fst).Nodup) := by
  intro s history
  obtain ⟨hw, hwy⟩ := List.forall_mem_append.mp hw
  obtain ⟨hmono, -, hbefore⟩ := List.pairwise_append.mp hmono
  have hle (x : SidCheck) (hx : x ∈ xs) : x.now.val ≤ y.now.val := hbefore x hx y (by simp)
  have hstart : Holds s₀ [] ⟨0, Nat.zero_le _⟩ := holds_unset h₀ _
  obtain ⟨latest, hlatest, hrun⟩ := hstart.run xs hw hmono fun x _ => Nat.zero_le _
  have hy : latest.val ≤ y.now.val := hlatest y.now (Nat.zero_le _) hle
  have hcheck := hrun.checks y hy (hwy y (by simp))
  rw [List.nil_append] at hrun hcheck
  cases hcheck with
  | replayed hwhy hout hsame =>
    refine ⟨true, hout, iff_of_true rfl hwhy, fun _ => ⟨?_, hsame⟩, nofun⟩
    rw [recorded_append, recorded_replayed hout, List.append_nil]
  | fresh sid hsid hlock hnew hout hset =>
    refine ⟨false, hout, iff_of_false nofun ?_, nofun, fun _ => ⟨sid, hsid, ?_, hset, ?_, ?_⟩⟩
    · rintro (hnone | hbusy | ⟨sid', hsid', hex⟩)
      · rw [hsid] at hnone
        cases hnone
      · rw [hlock] at hbusy
        cases hbusy
      · rw [hsid] at hsid'
        cases hsid'
        exact hnew hex
    · rw [recorded_append, recorded_fresh hsid hout]
    · exact Recency.kept_suffix ((hrun.past.append hy sid).persists y.now) maxSids
    · have hrep : (⟨0, false, remembered latest history⟩ : Vault).replays y.now sid = false := by
        rw [← Bool.not_eq_true, hrun.replays hy]
        exact hnew
      exact (hrun.record hy hrep).2

end Runs

open AppsScript

/-- The same delivery twice. -/
def delivery : SidCheck := ⟨.str (js " SM1"), sampleEnv⟩

theorem checks_exact_twice : (delivery.result (afterCheck sampleStore delivery)).outcome = .ok true := by
  obtain ⟨replayed, hout, hiff, -, -⟩ := checks_exact
    (rfl : sampleStore .secSeenSids = none) [delivery] delivery
    (by simp [delivery, sampleEnv, Env.Writes]) (by simp)
  have hmem : (js "SM1", delivery.now) ∈ lastOf maxSids (recorded sampleStore [delivery]) := by
    decide +kernel
  have hrep := hiff.mpr (.inr (.inr ⟨js "SM1", by decide, _, hmem, by simp [sidTtlMs]⟩))
  exact hout.trans (congrArg Except.ok hrep)

end SecurityVault
end Spazito
