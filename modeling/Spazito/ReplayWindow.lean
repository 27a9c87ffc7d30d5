import Spazito.VaultHistory

set_option autoImplicit false

/-!
# How long a MessageSid is remembered

An accepted sid stays in the replay set until it expires or enough later sids push it out.
-/
namespace Spazito
open Ecma Script

namespace Vault

variable {v : Vault} {entry : JSString × Time} {j : ℕ}

def Holds (v : Vault) (entry : JSString × Time) (j : ℕ) : Prop :=
  ∃ older newer, v.seen = older ++ entry :: newer ∧ newer.length ≤ j

theorem Holds.mono {i : ℕ} (h : v.Holds entry i) (hij : i ≤ j) : v.Holds entry j := by
  obtain ⟨older, newer, hseen, hlen⟩ := h
  exact ⟨older, newer, hseen, hlen.trans hij⟩

theorem lastOf_append {α : Type} {n : ℕ} (xs ys : List α) (h : ys.length ≤ n) :
    ∃ zs, SecurityVault.lastOf n (xs ++ ys) = zs ++ ys := by
  refine ⟨xs.drop (xs.length + ys.length - n), ?_⟩
  rw [SecurityVault.lastOf, List.length_append, List.drop_append_of_le_length (by omega)]

theorem holds_record (v : Vault) (now : Time) (sid : JSString) :
    (v.record now sid).Holds (sid, now) 0 := by
  obtain ⟨zs, hz⟩ := lastOf_append (v.fresh now) [(sid, now)] (n := SecurityVault.maxSids)
    (by simp [SecurityVault.maxSids])
  exact ⟨zs, [], hz, le_rfl⟩

theorem Holds.record (h : v.Holds entry j) {now : Time} (hlive : live now entry = true)
    (hroom : j + 1 < SecurityVault.maxSids) (sid : JSString) :
    (v.record now sid).Holds entry (j + 1) := by
  obtain ⟨older, newer, hseen, hlen⟩ := h
  have hfresh : v.fresh now ++ [(sid, now)] =
      older.filter (live now) ++ entry :: (newer.filter (live now) ++ [(sid, now)]) := by
    simp [fresh, hseen, hlive]
  have hnewer : (newer.filter (live now) ++ [(sid, now)]).length ≤ j + 1 := by
    have := List.length_filter_le (live now) newer
    simp only [List.length_append, List.length_singleton]
    omega
  obtain ⟨zs, hz⟩ := lastOf_append (older.filter (live now))
    (entry :: (newer.filter (live now) ++ [(sid, now)])) (n := SecurityVault.maxSids)
    (by rw [List.length_cons]; omega)
  refine ⟨zs, _, ?_, hnewer⟩
  rw [← hz, ← hfresh]
  rfl

theorem Holds.replays (h : v.Holds entry j) {now : Time} (hlive : live now entry = true) :
    v.replays now entry.1 = true := by
  obtain ⟨older, newer, hseen, -⟩ := h
  refine List.any_eq_true.mpr ⟨entry, List.mem_filter.mpr ⟨?_, hlive⟩, by simp⟩
  simp [hseen]

theorem step_seen (v : Vault) (q : Showing) (now : Time) (lock : ℕ → Bool) :
    ((v.step q now lock).2.seen = v.seen ∧ (v.step q now lock).1.allowed = false) ∨
      ∃ sid, q.sid = some sid ∧ v.replays now sid = false ∧
        (v.step q now lock).2.seen = (v.record now sid).seen := by
  have hpass : ∀ sid, v.passing q.sid now (lock 0) = some sid →
      q.sid = some sid ∧ v.replays now sid = false := by
    intro sid h
    obtain ⟨hsid, hfresh⟩ := Option.filter_eq_some_iff.mp h
    simp only [Bool.and_eq_true, Bool.not_eq_true'] at hfresh
    exact ⟨hsid, hfresh.2⟩
  rw [step]
  by_cases hs : v.isSealed = true
  · rw [if_pos hs]
    cases hu : v.unlocking q now (lock 0) with
    | none => exact .inl ⟨rfl, rfl⟩
    | some sid =>
      rw [unlocking] at hu
      split_ifs at hu
      obtain ⟨hsid, hfresh⟩ := hpass sid hu
      refine .inr ⟨sid, hsid, hfresh, ?_⟩
      cases lock 1 <;> rfl
  · rw [if_neg hs]
    by_cases hb : (q.tokenOk && q.fromOk) = true
    · rw [if_pos hb]
      cases hp : v.passing q.sid now (lock 0) with
      | none => exact .inl ⟨rfl, rfl⟩
      | some sid =>
        obtain ⟨hsid, hfresh⟩ := hpass sid hp
        exact .inr ⟨sid, hsid, hfresh, rfl⟩
    · rw [if_neg hb]
      cases q.tokenOk && lock 0 <;> exact .inl ⟨rfl, rfl⟩

def run (v : Vault) (requests : List (Showing × Time × (ℕ → Bool))) : Vault :=
  requests.foldl (fun v x => (v.step x.1 x.2.1 x.2.2).2) v

/-- While the gate is open the count is below the limit; it stops there. -/
def Bounded (v : Vault) : Prop :=
  v.failures ≤ SecurityVault.maxFailures ∧
    (v.isSealed = false → v.failures < SecurityVault.maxFailures)

theorem Bounded.step (h : v.Bounded) (q : Showing) (now : Time) (lock : ℕ → Bool) :
    (v.step q now lock).2.Bounded := by
  obtain ⟨hle, hlt⟩ := h
  rw [Vault.step]
  by_cases hs : v.isSealed = true
  · rw [if_pos hs]
    cases v.unlocking q now (lock 0) with
    | none => exact ⟨hle, hlt⟩
    | some sid =>
      cases lock 1 with
      | true => exact ⟨Nat.zero_le _, fun _ => (by decide : 0 < SecurityVault.maxFailures)⟩
      | false => exact ⟨hle, hlt⟩
  · rw [if_neg hs]
    have hopen := hlt (by simpa using hs)
    by_cases hb : (q.tokenOk && q.fromOk) = true
    · rw [if_pos hb]
      cases v.passing q.sid now (lock 0) with
      | none => exact ⟨hle, hlt⟩
      | some sid =>
        cases lock 1 with
        | true => exact ⟨Nat.zero_le _, fun _ => (by decide : 0 < SecurityVault.maxFailures)⟩
        | false => exact ⟨hle, fun _ => hopen⟩
    · rw [if_neg hb]
      cases q.tokenOk && lock 0 with
      | true => exact ⟨hopen, fun hno => by simpa using hno⟩
      | false => exact ⟨hle, hlt⟩

end Vault

theorem sidsText_injective {seen seen' : List (JSString × Time)} (h : sidsText seen = sidsText seen') :
    seen = seen' := by
  have hp := (parse_sidsText seen).symm.trans ((congrArg Value.parse h).trans (parse_sidsText seen'))
  have hmap : seen.map sidEntry = seen'.map sidEntry := Value.arr.inj (Option.some.inj hp)
  refine List.map_injective_iff.mpr (fun x y hxy => ?_) hmap
  simp only [sidEntry, Value.obj.injEq, List.cons.injEq, Prod.mk.injEq, Value.str.injEq,
    Value.num.injEq, Number.finite.injEq, true_and, and_true, Nat.cast_inj] at hxy
  exact Prod.ext hxy.1 (Subtype.ext hxy.2)

theorem Represents.seen_eq {s s' : Store} {v v' : Vault} (h : Represents s v)
    (h' : Represents s' v') (htext : s' .secSeenSids = s .secSeenSids) : v'.seen = v.seen := by
  rcases h.seen with ⟨hs, hv⟩ | hs <;> rcases h'.seen with ⟨hs', hv'⟩ | hs' <;> rw [htext, hs] at hs'
  · rw [hv, hv']
  · cases hs'
  · cases hs'
  · exact sidsText_injective (Option.some.inj hs').symm

namespace SecurityGate

section Runs

variable [Platform] {s₀ s : Store} {v : Vault}

/-- A store that the gate can reach, with the state it holds. -/
structure Reaches (s₀ s : Store) (v : Vault) : Prop where
  represents : Represents s v
  frame : ∀ k ∉ securityKeys, s k = s₀ k
  bounded : v.Bounded

omit [Platform] in
theorem Reaches.start (hunset : ∀ k ∈ securityKeys, s k = none) : Reaches s s Vault.empty :=
  ⟨represents_unset hunset, fun _ _ => rfl, by decide, fun _ => by decide⟩

theorem Reaches.step (h : Reaches s₀ s v) (hc : Configured s₀) {x : Visit} (hw : x.env.Writes) :
    let r := visitRecord s x
    let step := v.step (showingOf (paramsOf x.event) s) (x.env.clock 0) x.env.lock
    Reaches s₀ r.after step.2 ∧ r.allowed = step.1.allowed := by
  intro r step
  have hf := authorize_follows (w := ⟨s, x.env⟩) x.event (hc.of_frame (by decide) h.frame)
    h.represents hw (h.bounded.1.trans_lt (by decide))
  refine ⟨⟨hf.represents, fun k hk => (hf.frame k hk).trans (h.frame k hk), h.bounded.step _ _ _⟩, ?_⟩
  have houtcome : r.outcome = .ok step.1 := hf.decision
  rw [Record.allowed, houtcome]

/-- A request as the abstract state sees it. -/
def showing (s : Store) (x : Visit) : Showing × Time × (ℕ → Bool) :=
  (showingOf (paramsOf x.event) s, x.env.clock 0, x.env.lock)

theorem Reaches.run (h : Reaches s₀ s v) (hc : Configured s₀) (xs : List Visit)
    (hw : ∀ x ∈ xs, x.env.Writes) :
    Reaches s₀ (storeAfter s xs) (v.run (xs.map (showing s₀))) := by
  induction xs generalizing s v with
  | nil => exact h
  | cons x xs ih =>
    obtain ⟨hx, hxs⟩ := List.forall_mem_cons.mp hw
    have hnext := (h.step hc hx).1
    rw [showingOf_frame h.frame] at hnext
    exact ih hnext hxs

theorem Reaches.holds {entry : JSString × Time} {j : ℕ} (h : Reaches s₀ s v) (hc : Configured s₀)
    (hheld : v.Holds entry j) (xs : List Visit) (hw : ∀ x ∈ xs, x.env.Writes)
    (hlive : ∀ x ∈ xs, Vault.live (x.env.clock 0) entry = true)
    (hroom : j + (history s xs).countP Record.records < SecurityVault.maxSids) :
    ∃ v', Reaches s₀ (storeAfter s xs) v' ∧
      v'.Holds entry (j + (history s xs).countP Record.records) := by
  induction xs generalizing s v j with
  | nil => exact ⟨v, h, hheld⟩
  | cons x xs ih =>
    obtain ⟨hx, hxs⟩ := List.forall_mem_cons.mp hw
    obtain ⟨hlx, hlxs⟩ := List.forall_mem_cons.mp hlive
    obtain ⟨hnext, -⟩ := h.step hc hx
    rw [history, List.countP_cons] at hroom ⊢
    by_cases hrec : (visitRecord s x).records = true
    · rw [if_pos hrec] at hroom ⊢
      have hheld' : (v.step (showingOf (paramsOf x.event) s) (x.env.clock 0) x.env.lock).2.Holds
          entry (j + 1) := by
        rcases v.step_seen (showingOf (paramsOf x.event) s) (x.env.clock 0) x.env.lock with
          ⟨hsame, -⟩ | ⟨sid, -, -, hseen⟩
        · obtain ⟨older, newer, hold, hlen⟩ := hheld
          exact ⟨older, newer, hsame.trans hold, by omega⟩
        · obtain ⟨older, newer, hold, hlen⟩ := hheld.record hlx (by omega) sid
          exact ⟨older, newer, hseen.trans hold, hlen⟩
      obtain ⟨v', hv', hheld''⟩ := ih hnext hheld' hxs hlxs (by omega)
      exact ⟨v', hv', hheld''.mono (by omega)⟩
    · rw [if_neg hrec, Nat.add_zero] at hroom ⊢
      have htext : (visitRecord s x).after .secSeenSids = s .secSeenSids := by
        simp only [Record.records, ne_eq, decide_not, Bool.not_eq_true', Bool.not_eq_false,
          decide_eq_true_eq] at hrec
        exact hrec
      obtain ⟨older, newer, hold, hlen⟩ := hheld
      exact ih hnext ⟨older, newer, (h.represents.seen_eq hnext.represents htext).trans hold, hlen⟩
        hxs hlxs hroom

/-- **No replay while the sid is remembered.** An accepted MessageSid is not accepted again within the
window unless at least fifty MessageSids were recorded in between. -/
theorem no_replay (s : Store) (hc : Configured s) (hunset : ∀ k ∈ securityKeys, s k = none)
    (before between : List Visit) (x y : Visit)
    (hw : ∀ z ∈ before ++ x :: between ++ [y], z.env.Writes)
    (htimes : (before ++ x :: between ++ [y]).Pairwise fun a b =>
      (a.env.clock 0).val ≤ (b.env.clock 0).val) :
    let first := visitRecord (storeAfter s before) x
    let log := history first.after between
    let second := visitRecord (storeAfter first.after between) y
    first.allowed = true → second.allowed = true → second.sid = first.sid →
      log.countP Record.records < SecurityVault.maxSids →
        first.time.val + SecurityVault.sidTtlMs ≤ second.time.val := by
  intro first log second hfirst hsecond hsid hroom
  by_contra hearly
  have hv := (Reaches.start hunset).run hc before fun z hz => hw z (by simp [hz])
  set v := Vault.empty.run (before.map (showing s))
  obtain ⟨hv', hallowed⟩ := hv.step hc (x := x) (hw x (by simp))
  set v' := (v.step (showingOf (paramsOf x.event) (storeAfter s before)) (x.env.clock 0)
    x.env.lock).2 with hdef
  rcases v.step_seen (showingOf (paramsOf x.event) (storeAfter s before)) (x.env.clock 0)
    x.env.lock with ⟨-, hno⟩ | ⟨sid, hshown, -, hseen⟩
  · rw [hallowed, hno] at hfirst
    cases hfirst
  · have hheld : v'.Holds (sid, x.env.clock 0) 0 := by
      obtain ⟨older, newer, hold, hlen⟩ := v.holds_record (x.env.clock 0) sid
      exact ⟨older, newer, hseen.trans hold, hlen⟩
    have horder : ∀ z ∈ between ++ [y], (z.env.clock 0).val ≤ (y.env.clock 0).val := by
      have hlate := (List.pairwise_append.mp (List.append_assoc before _ _ ▸ htimes)).2.1
      have hmid := (List.pairwise_append.mp (List.pairwise_cons.mp hlate).2).2.2
      intro z hz
      rcases List.mem_append.mp hz with hz | hz
      · exact hmid z hz y (by simp)
      · rw [List.mem_singleton.mp hz]
    have hlive : ∀ z ∈ between ++ [y], Vault.live (z.env.clock 0) (sid, x.env.clock 0) = true := by
      intro z hz
      have hz := horder z hz
      have hearly : (y.env.clock 0).val < (x.env.clock 0).val + SecurityVault.sidTtlMs := by
        exact not_le.mp hearly
      simp only [Vault.live, decide_eq_true_eq]
      omega
    obtain ⟨v'', hv'', hheld'⟩ := Reaches.holds hv' hc hheld between
      (fun z hz => hw z (by simp [hz])) (fun z hz => hlive z (by simp [hz])) (by simpa using hroom)
    obtain ⟨-, hallowed'⟩ := hv''.step hc (x := y) (hw y (by simp))
    rcases v''.step_seen (showingOf (paramsOf y.event) (storeAfter first.after between))
      (y.env.clock 0) y.env.lock with ⟨-, hno⟩ | ⟨sid', hshown', hfresh, -⟩
    · have : second.allowed = false := hallowed'.trans hno
      rw [this] at hsecond
      cases hsecond
    · have hsame : sid' = sid := Option.some.inj (hshown'.symm.trans (hsid.trans hshown))
      rw [hsame, hheld'.replays (hlive y (by simp))] at hfresh
      cases hfresh

theorem allowed_run (hc : Configured s) (hunset : ∀ k ∈ securityKeys, s k = none)
    (xs : List Visit) (hw : ∀ x ∈ xs, x.env.Writes) {y : Visit} (hy : y.env.Writes) :
    (visitRecord (storeAfter s xs) y).allowed = ((Vault.empty.run (xs.map (showing s))).step
      (showingOf (paramsOf y.event) s) (y.env.clock 0) y.env.lock).1.allowed := by
  have hrun := (Reaches.start hunset).run hc xs hw
  have hstep := (hrun.step hc hy).2
  rwa [showingOf_frame hrun.frame] at hstep

end Runs

section
open AppsScript

def listRequest (sid now : ℕ) (h : now ≤ 8640000000000000) : Visit :=
  ⟨some ⟨some ⟨some (js "token"), some (js "+15550199"), some (js "list"),
    some (js "SM" ++ decimal sid)⟩⟩, { sampleEnv with clock := fun _ => ⟨now, h⟩ }⟩

theorem no_replay_next_day :
    let x := listRequest 0 0 (by decide)
    let y := listRequest 0 86400000 (by decide)
    let first := visitRecord (storeAfter sampleStore []) x
    let second := visitRecord (storeAfter first.after []) y
    first.allowed = true ∧ second.allowed = true ∧
      first.time.val + SecurityVault.sidTtlMs ≤ second.time.val := by
  intro x y
  have hfirst := allowed_run configured_sampleStore unset_sampleStore [] (y := x)
    (by simp) fun _ => rfl
  have hsecond := allowed_run configured_sampleStore unset_sampleStore [x] (y := y)
    (List.forall_mem_singleton.mpr fun _ => rfl) fun _ => rfl
  rw [show ((Vault.empty.run ([].map (showing sampleStore))).step
    (showingOf (paramsOf x.event) sampleStore) (x.env.clock 0) x.env.lock).1.allowed = true by
      decide +kernel] at hfirst
  rw [show ((Vault.empty.run ([x].map (showing sampleStore))).step
    (showingOf (paramsOf y.event) sampleStore) (y.env.clock 0) y.env.lock).1.allowed = true by
      decide +kernel] at hsecond
  exact ⟨hfirst, hsecond, no_replay sampleStore configured_sampleStore unset_sampleStore [] [] x y
    (by simp [x, y, listRequest, Env.Writes, sampleEnv]) (by simp [x, y, listRequest]) hfirst hsecond
    rfl (by decide)⟩

/-- Fifty accepted messages push a sid out of the replay set, and it is accepted again at once. -/
theorem replay_after_fifty :
    let x := listRequest 0 0 (by decide)
    let between := (List.range 50).map fun i => listRequest (i + 1) 0 (by decide)
    let first := visitRecord sampleStore x
    let second := visitRecord (storeAfter first.after between) x
    Configured sampleStore ∧ (∀ k ∈ securityKeys, sampleStore k = none) ∧
      first.allowed = true ∧ second.allowed = true ∧ second.sid = first.sid ∧
      first.time.val ≤ second.time.val ∧
      second.time.val < first.time.val + SecurityVault.sidTtlMs := by
  have hwrites : ∀ x ∈ listRequest 0 0 (by decide) ::
      (List.range 50).map fun i => listRequest (i + 1) 0 (by decide), x.env.Writes := by
    simp only [List.mem_cons, List.mem_map]
    rintro x (rfl | ⟨i, -, rfl⟩) <;> exact fun _ => rfl
  have hfirst := allowed_run configured_sampleStore unset_sampleStore []
    (y := listRequest 0 0 (by decide)) (by simp) fun _ => rfl
  have hsecond := allowed_run configured_sampleStore unset_sampleStore _ hwrites
    (y := listRequest 0 0 (by decide)) fun _ => rfl
  rw [storeAfter_cons] at hsecond
  refine ⟨configured_sampleStore, unset_sampleStore, hfirst.trans (by decide +kernel),
    hsecond.trans (by decide +kernel), ?_, ?_, ?_⟩
  · rw [visitRecord_sid, visitRecord_sid]
  · rw [visitRecord_time, visitRecord_time]
  · rw [visitRecord_time, visitRecord_time]
    decide

end
end SecurityGate
end Spazito
