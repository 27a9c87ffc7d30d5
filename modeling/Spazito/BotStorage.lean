import Spazito.BotPool
import Spazito.EcmaJsonSize

set_option autoImplicit false

/-!
# What the properties can grow to

A script property holds about nine kilobytes. The lists are cut, and what enters them is short.
-/
namespace Spazito
open Ecma Script

/-! ## What is in the lists -/

namespace Bot

variable {b b' : Bot}

theorem change_trail {c : Change} (h : b.change c = some b') :
    ∀ x ∈ b'.trail, x ∈ b.trail ∨ c = .audit x := by
  cases c with
  | add t | remove t | trip | record now sid | claim n =>
    rw [change] at h
    split_ifs at h
    cases h
    exact fun x hx => .inl hx
  | setPaused paused | countFailure | zeroFailures | reopen =>
    cases h
    exact fun x hx => .inl hx
  | audit entry =>
    cases h
    intro x hx
    rcases List.mem_append.mp (List.mem_of_mem_drop hx) with hx | hx
    · exact .inl hx
    · exact .inr (by rw [List.mem_singleton.mp hx])

theorem change_seen {c : Change} (h : b.change c = some b') :
    ∀ x ∈ b'.vault.seen, x ∈ b.vault.seen ∨ c = .record x.2 x.1 := by
  cases c with
  | add t | remove t | trip | claim n =>
    rw [change] at h
    split_ifs at h
    cases h
    exact fun x hx => .inl hx
  | setPaused paused | countFailure | zeroFailures | reopen | audit entry =>
    cases h
    exact fun x hx => .inl hx
  | record now sid =>
    rw [change] at h
    split_ifs at h
    cases h
    intro x hx
    rcases List.mem_append.mp (List.mem_of_mem_drop hx) with hx | hx
    · exact .inl (List.mem_filter.mp hx).1
    · exact .inr (by rw [List.mem_singleton.mp hx])

theorem after_initial {changes : List Change} (h : initial.after changes = some b) :
    (∀ x ∈ b.trail, .audit x ∈ changes) ∧ ∀ x ∈ b.vault.seen, .record x.2 x.1 ∈ changes := by
  induction changes using List.reverseRecOn generalizing b with
  | nil =>
    cases h
    exact ⟨fun x hx => (List.not_mem_nil hx).elim, fun x hx => (List.not_mem_nil hx).elim⟩
  | append_singleton changes c ih =>
    obtain ⟨b₁, hb₁, hc⟩ := after_concat h
    obtain ⟨htrail, hseen⟩ := ih hb₁
    refine ⟨fun x hx => ?_, fun x hx => ?_⟩
    · rcases change_trail hc x hx with hx | rfl
      · exact List.mem_append_left _ (htrail x hx)
      · exact List.mem_append_right _ (List.mem_singleton_self _)
    · rcases change_seen hc x hx with hx | rfl
      · exact List.mem_append_left _ (hseen x hx)
      · exact List.mem_append_right _ (List.mem_singleton_self _)

end Bot

/-! ## How long it is -/

theorem fits_sidEntry {L : ℕ} {x : JSString × Time} (hsid : Fits Plain L x.1) :
    Fits Ascii (L + 31) (Value.stringify (sidEntry x)) := by
  have htime : Fits Ascii 16 (Value.stringify (.num (.finite x.2.val))) := by
    have htext : Number.toText (.finite x.2.val) = decimal x.2.val :=
      Number.toText_natCast _ (time_le x.2)
    have hlt : x.2.val < 10 ^ 16 := x.2.property.trans_lt (by decide)
    have hfinite : (Number.finite x.2.val).isFinite = true := rfl
    rw [Value.stringify, if_pos hfinite, htext]
    exact (fits_decimal (by decide) hlt).imp fun _ => Plain.ascii
  have hlast : Fits Ascii 20 (Value.membersText [(js "t", .num (.finite x.2.val))]) :=
    Value.fits_lastMember (k := 1) (.of_all (by decide) (by decide)) htime
  have hall : Fits Ascii (3 + (L + 2) + 20 + 4) (Value.membersText
      [(js "sid", .str x.1), (js "t", .num (.finite x.2.val))]) :=
    Value.fits_member (.of_all (by decide) (by decide)) (Value.fits_quote hsid) hlast
  exact (Value.fits_object hall).mono (by omega)

theorem fits_auditEntry {x : AuditEntry} (ht : Fits Plain 27 x.t) (hk : Fits Plain 8 x.k)
    (hs : Fits Plain 6 x.s) : Fits Ascii 63 (Value.stringify (auditEntry x)) := by
  have hlast : Fits Ascii 12 (Value.membersText [(js "s", .str x.s)]) :=
    Value.fits_lastMember (k := 1) (.of_all (by decide) (by decide)) (Value.fits_quote hs)
  have hmiddle : Fits Ascii 27 (Value.membersText [(js "k", .str x.k), (js "s", .str x.s)]) :=
    Value.fits_member (k := 1) (.of_all (by decide) (by decide)) (Value.fits_quote hk) hlast
  have hall : Fits Ascii 61 (Value.membersText
      [(js "t", .str x.t), (js "k", .str x.k), (js "s", .str x.s)]) :=
    Value.fits_member (k := 1) (.of_all (by decide) (by decide)) (Value.fits_quote ht) hmiddle
  exact Value.fits_object hall

theorem fits_ticker {t : JSString} (h : Tickers.Canonical t) : Fits Plain 10 t where
  units := by
    intro u hu
    have hunit := h.unit u hu
    simp [Tickers.isTickerUnit, Tickers.isTickerHead, isUpper, isDigit, Plain, UInt16.le_iff_toNat_le,
      UInt16.lt_iff_toNat_lt, ← UInt16.toNat_inj] at hunit ⊢
    omega
  length_le := by
    obtain ⟨u, w, rfl, -, -, hlen⟩ := h
    exact Nat.succ_le_succ hlen

theorem plain_of_isHexDigit {u : CodeUnit} (h : isHexDigit u = true) : Plain u := by
  simp [isHexDigit, isDigit, Plain, UInt16.le_iff_toNat_le, UInt16.lt_iff_toNat_lt,
    ← UInt16.toNat_inj] at h ⊢
  omega

/-- Bounds of the properties, when the sids have at most `L` units. -/
def storageBound (L : ℕ) : Key → ℕ
  | .watchlist => Watchlist.maxTickers * 13 + 2
  | .paused | .secSealed => 5
  | .secFailures | .secMsgCount => 16
  | .secSeenSids => SecurityVault.maxSids * (L + 32) + 2
  | .secAudit => SecurityVault.maxAuditEntries * 64 + 2
  | _ => 0

theorem storageBound_le {L : ℕ} (hL : L ≤ 150) (k : Key) : storageBound L k ≤ 9216 := by
  cases k <;> simp only [storageBound, Watchlist.maxTickers, SecurityVault.maxSids,
    SecurityVault.maxAuditEntries] <;> omega

theorem fits_count {n : ℕ} (hn : n ≤ 2 ^ 53) : Fits Ascii 16 (decimal n) :=
  (fits_decimal (by decide) (hn.trans_lt (by decide))).imp fun _ => Plain.ascii

section Pool

variable [Platform] {ι : Type} [DecidableEq ι] {s₀ : Store} {entry : ι → Entry}

theorem Story.note {b₀ : Bot} {log : List (ι × Change)} {s : Store} (h : Story entry b₀ s₀ log s)
    {x : AuditEntry} (hmem : Change.audit x ∈ log.map Prod.snd) :
    Fits Ascii 63 (Value.stringify (auditEntry x)) := by
  obtain ⟨⟨i, c⟩, hmem, rfl⟩ := List.mem_map.mp hmem
  obtain ⟨front, rest, hlog⟩ := List.append_of_mem hmem
  have hpermits := h.permitted front i _ rest hlog
  cases hi : entry i with
  | runDailyAlert =>
    rw [hi] at hpermits
    obtain ⟨-, n, hc⟩ := hpermits
    cases hc
  | doPost e =>
    rw [hi] at hpermits
    obtain ⟨⟨now, hx⟩, hkind⟩ := hpermits
    have hk : Fits Plain 8 x.k := by
      rcases hkind with ⟨hk, -⟩ | ⟨hk, -⟩ | ⟨hk, -⟩ | ⟨hk, -⟩ <;> rw [hk] <;>
        exact .of_all (by decide) (by decide)
    obtain ⟨hlength, hunits⟩ := hexPrefix_units (s₀.secret .verifierKey)
      ((SecurityGate.paramsOf e).sender.getD []) (n := 3) (by decide)
    refine fits_auditEntry ?_ hk ?_
    · rw [hx]
      exact fits_isoString now
    · rw [hx]
      exact ⟨fun u hu => plain_of_isHexDigit (hunits u hu).1, hlength.le⟩

theorem Story.sid {b₀ : Bot} {log : List (ι × Change)} {s : Store} (h : Story entry b₀ s₀ log s)
    {now : Time} {sid : JSString} (hmem : Change.record now sid ∈ log.map Prod.snd) :
    ∃ i e, entry i = .doPost e ∧
      let q := SecurityGate.showingOf (SecurityGate.paramsOf e) s₀
      q.tokenOk = true ∧ q.fromOk = true ∧ q.sid = some sid := by
  obtain ⟨⟨i, c⟩, hmem, rfl⟩ := List.mem_map.mp hmem
  obtain ⟨front, rest, hlog⟩ := List.append_of_mem hmem
  have hpermits := h.permitted front i _ rest hlog
  cases hi : entry i with
  | runDailyAlert =>
    rw [hi] at hpermits
    obtain ⟨-, n, hc⟩ := hpermits
    cases hc
  | doPost e =>
    rw [hi] at hpermits
    exact ⟨i, e, hi, hpermits.1, hpermits.2.1, hpermits.2.2.1⟩

/-- **The storage stays within its bounds.** If the sids of authentic requests are plain and have at
most `L` units, every property of the bot is ASCII and within its bound in every reachable state; up
to 150 units, that is nine kilobytes. -/
theorem pool_storage (hs : Installed s₀) (L : ℕ)
    (hsids : ∀ i e sid, entry i = .doPost e →
      let q := SecurityGate.showingOf (SecurityGate.paramsOf e) s₀
      q.tokenOk = true → q.fromOk = true → q.sid = some sid → Fits Plain L sid)
    {p : Pool GAS JSError (Option JSString) ι Store}
    (hrun : Pool.Runs (storeEffect True) (botStart entry s₀) p) :
    ∀ k ∈ ownKeys, ∀ v, p.data k = some v →
      Fits Ascii (storageBound L k) v ∧ (L ≤ 150 → v.length ≤ 9216) := by
  obtain ⟨log, hlog⟩ := exists_watched (Bot.represents_initial hs) hrun
  have hstory := hlog.story (Bot.represents_initial hs)
  obtain ⟨b, hafter, hrep⟩ := hstory.state
  obtain ⟨htrail, hseen⟩ := Bot.after_initial hafter
  have hflag {v : JSString} (hv : v = js "true" ∨ v = js "false") : Fits Ascii 5 v := by
    rcases hv with rfl | rfl <;> exact .of_all (by decide) (by decide)
  suffices hfits : ∀ k ∈ ownKeys, ∀ v, p.data k = some v → Fits Ascii (storageBound L k) v from
    fun k hk v hv => ⟨hfits k hk v hv, fun hL => (hfits k hk v hv).length_le.trans (storageBound_le hL k)⟩
  intro k hk v hv
  have hcase : k = .watchlist ∨ k = .paused ∨ k = .secMsgCount ∨ k = .secFailures ∨ k = .secSealed ∨
      k = .secSeenSids ∨ k = .secAudit := by
    simpa only [ownKeys, List.mem_cons, List.not_mem_nil, or_false] using hk
  rcases hcase with rfl | rfl | rfl | rfl | rfl | rfl | rfl
  · rcases hrep.tracked.list with hlist | ⟨hlist, -⟩ <;> cases hv.symm.trans hlist
    refine Value.fits_array (fun x hx => ?_) ((List.length_map _).trans_le b.tracked.roster.bounded)
    obtain ⟨t, ht, rfl⟩ := List.mem_map.mp hx
    exact Value.fits_quote (fits_ticker (b.tracked.roster.admitted t ht))
  · refine hflag ((hrep.switches .paused (by decide)).elim (fun hnone => ?_) (Or.imp ?_ ?_))
    · cases hv.symm.trans hnone
    all_goals exact fun hsome => Option.some.inj (hv.symm.trans hsome)
  · rcases hrep.counter with ⟨hnone, -⟩ | hcount
    · cases hv.symm.trans hnone
    · cases hv.symm.trans hcount
      exact fits_count b.counter_le
  · have hcount := hrep.vault.failures
    rw [hv, Option.getD_some] at hcount
    rw [hcount]
    exact fits_count b.failures_le
  · refine hflag ((hrep.switches .secSealed (by decide)).elim (fun hnone => ?_) (Or.imp ?_ ?_))
    · cases hv.symm.trans hnone
    all_goals exact fun hsome => Option.some.inj (hv.symm.trans hsome)
  · rcases hrep.vault.seen with ⟨hnone, -⟩ | hlist
    · cases hv.symm.trans hnone
    · cases hv.symm.trans hlist
      refine Value.fits_array (fun x hx => ?_) ((List.length_map _).trans_le b.seen_le)
      obtain ⟨y, hy, rfl⟩ := List.mem_map.mp hx
      obtain ⟨i, e, hi, htoken, hfrom, hsid⟩ := hstory.sid (hseen y hy)
      exact fits_sidEntry (hsids i e y.1 hi htoken hfrom hsid)
  · rcases hrep.trail with ⟨hnone, -⟩ | hlist
    · cases hv.symm.trans hnone
    · cases hv.symm.trans hlist
      refine Value.fits_array (fun x hx => ?_) ((List.length_map _).trans_le b.trail_le)
      obtain ⟨y, hy, rfl⟩ := List.mem_map.mp hx
      exact hstory.note (htrail y hy)

end Pool

section
open AppsScript

theorem pool_storage_turns : ∃ v, turnsPool.data .secSeenSids = some v ∧
    Fits Ascii (storageBound 34 .secSeenSids) v ∧ v.length ≤ 9216 := by
  have hsids : ∀ i e sid, deliveredTwice i = .doPost e →
      let q := SecurityGate.showingOf (SecurityGate.paramsOf e) sampleStore
      q.tokenOk = true → q.fromOk = true → q.sid = some sid → Fits Plain 34 sid := by
    rintro (_ | i) e sid hi q - - hsid <;> cases hi
    have hown : (SecurityGate.showingOf (SecurityGate.paramsOf pauseRequest) sampleStore).sid =
        some (js "SM1") := by decide +kernel
    cases hsid.symm.trans hown
    exact .of_all (by decide) (by decide)
  obtain ⟨v, hv⟩ := Option.isSome_iff_exists.mp
    (show (turnsPool.data .secSeenSids).isSome = true by decide +kernel)
  obtain ⟨hfits, hlength⟩ := pool_storage installed_sampleStore 34 hsids runs_turnsPool .secSeenSids
    (by decide) v hv
  exact ⟨v, hv, hfits, hlength (by decide)⟩

end
end Spazito
