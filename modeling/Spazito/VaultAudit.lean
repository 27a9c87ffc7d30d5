import Spazito.StoreRules
import Spazito.VaultGate

set_option autoImplicit false

/-!
# The audit trail, and what an allowed request leaves

What the vault has written to the trail it can read back in full, whatever has failed meanwhile; and
after a request that the gate allows the bot is not sealed.
-/
namespace Spazito
open Ecma Script

/-! ## The stored form -/

structure AuditEntry where
  t : JSString
  k : JSString
  s : JSString

def auditEntry (x : AuditEntry) : Value :=
  .obj [(js "t", .str x.t), (js "k", .str x.k), (js "s", .str x.s)]

def trailText (trail : List AuditEntry) : JSString := Value.stringify (.arr (trail.map auditEntry))

/-- The trail is as the vault itself writes it. -/
def Audited (s : Store) : Prop :=
  s .secAudit = none ∨ ∃ trail : List AuditEntry, s .secAudit = some (trailText trail)

theorem storable_auditEntry (x : AuditEntry) : Value.Storable (auditEntry x) := by
  refine ⟨⟨trivial, trivial, trivial, trivial⟩, ?_⟩
  have hne : ¬ js "t" = js "k" ∧ ¬ js "t" = js "s" ∧ ¬ js "k" = js "s" := by decide
  have hidx : Value.arrayIndex (js "t") = none ∧ Value.arrayIndex (js "k") = none ∧
      Value.arrayIndex (js "s") = none := by decide
  simp [Value.ofMembers, Value.setMember, hne, hidx]

theorem parse_trailText (trail : List AuditEntry) :
    Value.parse (trailText trail) = some (.arr (trail.map auditEntry)) := by
  refine Value.parse_stringify _ (Value.storableElements_iff.mpr fun x hx => ?_)
  obtain ⟨entry, -, rfl⟩ := List.mem_map.mp hx
  exact storable_auditEntry entry

theorem Audited.array {s : Store} (h : Audited s) :
    ∃ trail : List AuditEntry, s.array .secAudit = trail.map auditEntry := by
  rcases h with hs | ⟨trail, hs⟩
  · exact ⟨[], by simp [Store.array, hs]⟩
  · exact ⟨trail, by simp [Store.array, hs, parse_trailText]⟩

theorem audited_congr {s t : Store} (h : Audited s) (hst : t .secAudit = s .secAudit) : Audited t := by
  rwa [Audited, hst]

theorem Replies.auditLog_trail (trail : List AuditEntry) :
    ∃ text, auditLog (trail.map auditEntry) = .ok text := by
  have hne : ¬ js "t" = js "k" ∧ ¬ js "t" = js "s" ∧ ¬ js "k" = js "s" := by decide
  have hline : ∀ x : AuditEntry, ∃ line, auditLine (auditEntry x) = .ok line := fun x => by
    simp only [auditLine, auditEntry, Value.property, Value.lookup]
    by_cases ht : (Value.str x.t).truthy <;> simp [hne, ht, Value.toText, Value.elementText]
  have hlines : ∃ lines, (trail.map auditEntry).mapM auditLine = .ok lines := by
    induction trail with
    | nil => exact ⟨[], rfl⟩
    | cons x trail ih =>
      obtain ⟨line, hx⟩ := hline x
      obtain ⟨lines, hrest⟩ := ih
      exact ⟨line :: lines, by simp [hx, hrest]⟩
  obtain ⟨lines, h⟩ := hlines
  unfold auditLog
  split_ifs
  · exact ⟨_, rfl⟩
  · exact ⟨_, by rw [h]; rfl⟩

/-! ## The trail is kept readable -/

section Specs

variable [Platform]

namespace SecurityVault

omit [Platform] in
theorem maintains_audited {F : Footprint} {α : Type} {p : Action α} (hp : p.Within F.allows)
    (hw : ¬ F.writes .secAudit) : Maintains Audited p :=
  Footprint.maintains hp fun _ _ hs hst => audited_congr hs (hst _ hw)

omit [Platform] in
theorem leaves_readAudit : Leaves Audited (readJson .secAudit)
    (fun entries s => Audited s ∧ ∃ trail : List AuditEntry, entries = trail.map auditEntry)
    Audited := by
  intro w hw
  obtain ⟨t, ht⟩ := run_readJson .secAudit w
  rw [ht]
  refine ⟨?_, by rintro _ ⟨⟩⟩
  rintro _ ⟨⟩
  exact ⟨hw, hw.array⟩

theorem maintains_appendAudit (kind : JSString) (sender : Option JSString) :
    Maintains Audited (appendAudit kind sender) := by
  refine leaves_readAudit.bind fun entries => ?_
  let I (s : Store) : Prop := Audited s ∧ ∃ trail : List AuditEntry, entries = trail.map auditEntry
  have hkeep : ∀ {α : Type} {p : Action α}, p.Within Footprint.readOnly.allows →
      Leaves I p (fun _ => I) Audited := fun {_ p} hp => by
    have h : Maintains I p :=
      Footprint.maintains hp fun _ _ hs hst => ⟨audited_congr hs.1 (hst _ id), hs.2⟩
    exact h.mono (fun _ h => h) (fun _ _ h => h) fun _ h => h.1
  refine (hkeep Footprint.now).bind fun time => (hkeep (within_hashSender trivial)).bind fun hash => ?_
  refine leaves_setProperty (fun s hs => ?_) fun _ hs => hs.1
  obtain ⟨-, trail, rfl⟩ := hs
  refine .inr ⟨lastOf maxAuditEntries (trail ++ [⟨isoString time, kind, hash⟩]), ?_⟩
  rw [Store.set_self, trailText, lastOf, lastOf, List.map_drop, List.map_append, List.length_append,
    List.length_append, List.length_map]
  rfl

theorem maintains_recordAudit (kind : JSString) (sender : Option JSString) :
    Maintains Audited (recordAudit kind sender) :=
  leaves_withScriptLock (maintains_appendAudit kind sender) (.ret fun _ h => h)

omit [Platform] in
theorem maintains_set {k : Key} {v : JSString} (hk : k ≠ .secAudit) :
    Maintains Audited (setProperty k v) :=
  leaves_setProperty (fun s hs => audited_congr hs (Store.set_ne s v hk.symm)) fun _ h => h

theorem maintains_registerFailure (sender : Option JSString) :
    Maintains Audited (registerFailure sender) := by
  have hsealed : Maintains Audited isSealed :=
    maintains_audited (F := Footprint.readOnly) (within_isSealed trivial) id
  refine leaves_withScriptLock ?_ (hsealed.bind fun _ => .ret fun _ h => h)
  refine (maintains_audited (Footprint.getProperty (F := .readOnly) trivial) id).bind fun _ =>
    (maintains_set (by decide)).bind fun _ => (maintains_appendAudit _ _).bind fun _ =>
      (maintains_audited (within_reachesSeal (F := .readOnly) trivial) id).bind fun tripped => ?_
  split_ifs
  · exact (maintains_set (by decide)).bind fun _ => (maintains_appendAudit _ _).bind fun _ =>
      (maintains_audited (Footprint.console (F := .readOnly) _ _) id).bind fun _ => .ret fun _ h => h
  · exact hsealed.bind fun _ => .ret fun _ h => h

theorem maintains_unsealBot (sender : Option JSString) : Maintains Audited (unsealBot sender) := by
  refine leaves_withScriptLock ?_ ((maintains_audited (Footprint.console (F := .readOnly) _ _) id).bind
    fun _ => .ret fun _ h => h)
  exact (maintains_set (by decide)).bind fun _ => (maintains_set (by decide)).bind fun _ =>
    (maintains_appendAudit _ _).bind fun _ => .ret fun _ h => h

end SecurityVault

namespace SecurityGate
open SecurityVault

/-- The footprint of what the gate does besides the trail. -/
abbrev besidesAudit : Footprint :=
  ⟨fun _ => True, (· ∈ [Key.secFailures, .secSealed, .secSeenSids]), fun _ => False⟩

omit [Platform] in
theorem maintains_besides {α : Type} {p : Action α} (hp : p.Within besidesAudit.allows) :
    Maintains Audited p := maintains_audited hp (by decide)

theorem maintains_tryUnseal (params : Parameters) : Maintains Audited (tryUnseal params) := by
  unfold tryUnseal
  dsimp only
  split_ifs
  · exact .ret fun _ h => h
  · refine (maintains_besides (Footprint.require trivial)).bind fun _ =>
      (maintains_besides (within_matchesToken trivial)).bind fun _ =>
        (maintains_besides (within_matchesRecipient trivial)).bind fun _ => ?_
    split_ifs
    · exact .ret fun _ h => h
    · refine (maintains_besides (within_checkAndRecordSid trivial (by decide))).bind fun _ => ?_
      split_ifs
      · exact .ret fun _ h => h
      · refine (maintains_unsealBot _).bind fun _ => ?_
        split_ifs
        · exact .ret fun _ h => h
        · exact (maintains_besides (Footprint.console _ _)).bind fun _ => .ret fun _ h => h

theorem maintains_authorize (e : Option WebhookEvent) : Maintains Audited (authorize e) := by
  have hreset : Maintains Audited resetFailures :=
    maintains_besides (within_resetFailures trivial (by decide))
  refine (maintains_besides (within_isSealed trivial)).bind fun _ => ?_
  split_ifs
  · refine (maintains_tryUnseal _).bind fun _ => ?_
    split_ifs
    · exact hreset.bind fun _ => .ret fun _ h => h
    · exact .ret fun _ h => h
  · refine (maintains_besides (within_matchesToken trivial)).bind fun _ =>
      (maintains_besides (within_matchesRecipient trivial)).bind fun _ => ?_
    split_ifs
    · exact (maintains_besides (Footprint.console _ _)).bind fun _ =>
        (maintains_registerFailure _).bind fun _ => .ret fun _ h => h
    · exact (maintains_besides (Footprint.console _ _)).bind fun _ => .ret fun _ h => h
    · refine (maintains_besides (within_checkAndRecordSid trivial (by decide))).bind fun _ => ?_
      split_ifs
      · exact (maintains_besides (Footprint.console _ _)).bind fun _ =>
          (maintains_recordAudit _ _).bind fun _ => .ret fun _ h => h
      · exact hreset.bind fun _ => .ret fun _ h => h

/-! ## After an allowed request -/

def Unsealed (s : Store) : Prop := s .secSealed ≠ some (js "true")

omit [Platform] in
theorem leaves_unsealed {α : Type} {F : Footprint} {p : Action α} (hp : p.Within F.allows)
    (hw : ¬ F.writes .secSealed) : Leaves Unsealed p (fun _ => Unsealed) fun _ => True := by
  have h : Maintains Unsealed p :=
    Footprint.maintains hp fun s t hs hst => by rwa [Unsealed, hst _ hw]
  exact h.mono (fun _ h => h) (fun _ _ h => h) fun _ _ => trivial

theorem leaves_unsealBot (sender : Option JSString) : Leaves (fun _ => True) (unsealBot sender)
    (fun ok s => ok = true → Unsealed s) fun _ => True := by
  have hopen : js "false" ≠ js "true" := by decide
  have hset : Leaves (fun _ => True) (setProperty .secSealed (js "false")) (fun _ => Unsealed)
      fun _ => True := leaves_setProperty
    (fun s _ h => hopen (Option.some.inj ((Store.set_self ..).symm.trans h)))
    fun _ _ => trivial
  refine leaves_withScriptLock ?_ ((Prog.Triple.any _).bind fun _ => .ret fun _ _ h => nomatch h)
  exact hset.bind fun _ =>
    (leaves_unsealed (F := ⟨fun _ => True, (· = .secFailures), fun _ => False⟩)
      (Footprint.setProperty rfl) (by decide)).bind fun _ =>
    (leaves_unsealed (F := ⟨fun _ => True, (· = .secAudit), fun _ => False⟩)
      (within_appendAudit ⟨trivial, trivial⟩ rfl) (by decide)).bind fun _ => .ret fun _ h _ => h

theorem leaves_tryUnseal (params : Parameters) : Leaves (fun _ => True) (tryUnseal params)
    (fun ok s => ok = true → Unsealed s) fun _ => True := by
  have hno : Leaves (fun _ => True) (.ret false : Action Bool) (fun ok s => ok = true → Unsealed s)
      fun _ => True := .ret fun _ _ h => nomatch h
  unfold tryUnseal
  dsimp only
  split_ifs
  · exact hno
  · refine (Prog.Triple.any _).bind fun _ => (Prog.Triple.any _).bind fun _ =>
      (Prog.Triple.any _).bind fun _ => ?_
    split_ifs
    · exact hno
    · refine (Prog.Triple.any _).bind fun _ => ?_
      split_ifs
      · exact hno
      · refine (leaves_unsealBot _).bind fun ok => ?_
        cases ok with
        | false => exact .ret fun _ _ h => nomatch h
        | true =>
          exact ((leaves_unsealed (Footprint.console (F := .readOnly) _ _) id).mono
            (fun _ h => h rfl) (fun _ _ h => h) fun _ h => h).bind fun _ => .ret fun _ h _ => h

omit [Platform] in
theorem leaves_isSealed : Leaves (fun _ => True) isSealed (fun b s => b = false → Unsealed s)
    fun _ => True := by
  refine (leaves_getProperty (I := fun _ => True) (J := fun _ => True) .secSealed).bind fun raw => ?_
  refine Prog.Triple.ret fun w h hb => ?_
  unfold Unsealed
  rw [← h.2]
  exact of_decide_eq_false hb

theorem leaves_authorize (e : Option WebhookEvent) : Leaves (fun _ => True) (authorize e)
    (fun d s => d.allowed = true → Unsealed s) fun _ => True := by
  have hreset : Leaves Unsealed (resetFailures.bind fun _ => .ret ⟨true, false⟩ : Action Decision)
      (fun d s => d.allowed = true → Unsealed s) fun _ => True :=
    (leaves_unsealed (F := ⟨fun _ => True, (· = .secFailures), fun _ => False⟩)
      (within_resetFailures trivial rfl) (by decide)).bind fun _ => .ret fun _ h _ => h
  refine leaves_isSealed.bind fun b => ?_
  split_ifs with hb
  · refine ((leaves_tryUnseal _).mono (fun _ _ => trivial) (fun _ _ h => h) fun _ h => h).bind
      fun ok => ?_
    split_ifs with hok
    · exact hreset.mono (fun _ h => h hok) (fun _ _ h => h) fun _ h => h
    · exact .ret fun _ _ h => nomatch h
  · have hread {α : Type} {p : Action α} (hp : p.Within Footprint.readOnly.allows) :
        Leaves Unsealed p (fun _ => Unsealed) fun _ => True := leaves_unsealed hp id
    refine ((hread (within_matchesToken trivial)).mono (fun _ h => h (by simpa using hb))
      (fun _ _ h => h) fun _ h => h).bind fun tokenOk =>
        (hread (within_matchesRecipient trivial)).bind fun fromOk => ?_
    split_ifs
    · exact (Prog.Triple.any _).bind fun _ => (Prog.Triple.any _).bind fun _ => .ret fun _ _ h => nomatch h
    · exact (Prog.Triple.any _).bind fun _ => .ret fun _ _ h => nomatch h
    · refine (leaves_unsealed (F := ⟨fun _ => True, (· = .secSeenSids), fun _ => False⟩)
        (within_checkAndRecordSid trivial rfl) (by decide)).bind fun replayed => ?_
      split_ifs
      · exact (Prog.Triple.any _).bind fun _ => (Prog.Triple.any _).bind fun _ => .ret fun _ _ h => nomatch h
      · exact hreset

theorem unsealed_of_allowed {e : Option WebhookEvent} {w : World} (h : Allowed e w) :
    Unsealed ((authorize e).run host w).state.store := by
  obtain ⟨d, hd, hallowed⟩ := h
  exact (leaves_authorize e w trivial).1 d hd hallowed

end SecurityGate
end Specs
end Spazito
