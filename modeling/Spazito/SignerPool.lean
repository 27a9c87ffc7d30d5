import Spazito.SignedText
import Spazito.StorePool

set_option autoImplicit false

/-!
# Signing in many executions at once

The lock makes the numbers consecutive, in the order in which it was taken.
-/
namespace Spazito
open Ecma Script

namespace Signer

/-- What executions of `sign` see: the owner may switch DEBUG_MODE between executions, so each has
its own reading of it; writes succeed. -/
def signEffect {ι : Type} (debug : ι → Bool) : Effect GAS ι Store := fun i o s r s' =>
  match o, r with
  | .getProperty .debugMode, r => (trim (r.getD []) = js "true" ↔ debug i = true) ∧ s' = s
  | o, r => storeEffect False i o s r s'

abbrev footprint : Footprint := ⟨fun _ => True, (· = .secMsgCount), fun _ => False⟩

/-- The same, for programs that write nothing but the counter. -/
abbrev poolEffect {ι : Type} (debug : ι → Bool) : Effect GAS ι Store := fun i o s r s' =>
  footprint.allows (.op o) ∧ signEffect debug i o s r s'

abbrev counter (s : Store) : Option JSString := s .secMsgCount
abbrev keyed (key : Option JSString) (s : Store) : Prop := s .verifierKey = key

section Threads

variable {ι V : Type} {debug : ι → Bool} {key : Option JSString} {i : ι} {v v' : V}
  {view : Store → V}

theorem poolEffect_read {k : Key} (hk : k ≠ .debugMode) {s s' : Store} {r : Option JSString}
    (h : poolEffect debug i (.getProperty k) s r s') : r = s k ∧ s' = s := by
  have h := h.2
  cases k <;> first | exact h | exact absurd rfl hk

theorem poolEffect_getProperty {k : Key} {s s' : Store} {r : Option JSString}
    (h : poolEffect debug i (.getProperty k) s r s') : s' = s := by
  by_cases hk : k = .debugMode
  · subst hk
    exact h.2.2
  · exact (poolEffect_read hk h).2

theorem signEffect_frame {o : Op} {s s' : Store} {r : o.Ret} (h : signEffect debug i o s r s')
    {k : Key} (hk : ∀ v, o ≠ .setProperty k v) : s' k = s k := by
  by_cases ho : o = .getProperty .debugMode
  · subst ho
    rw [show s' = s from h.2]
  · have hplain : storeEffect False i o s r s' := by
      unfold signEffect at h
      split at h
      · exact absurd rfl ho
      · exact h
    exact storeEffect_frame hplain hk

theorem poolEffect_good {o : Op} {s s' : Store} {r : o.Ret} (hs : keyed key s)
    (h : poolEffect debug i o s r s') : keyed key s' := by
  refine (signEffect_frame h.2 ?_).trans hs
  rintro v rfl
  exact absurd (show Key.verifierKey = .secMsgCount from h.1) (by decide)

def protects (o : Op) : Prop := ∃ v, o = .setProperty .secMsgCount v

theorem poolEffect_frame {o : Op} {s s' : Store} {r : o.Ret} (ho : ¬ protects o)
    (h : poolEffect debug i o s r s') : counter s' = counter s :=
  signEffect_frame h.2 fun v hv => ho ⟨v, hv⟩

theorem ends_isDebugMode {x : Except JSError Bool}
    (h : Ends (poolEffect debug) (keyed key) view i v Config.isDebugMode v' x) :
    v' = v ∧ x = .ok (debug i) := by
  obtain ⟨w, y, hopt, hrest⟩ := ends_bind.mp h
  obtain ⟨w', z, hread, hret⟩ := ends_bind.mp hopt
  obtain ⟨rfl, s, r, -, -, heff, rfl⟩ := ends_getProperty (fun _ _ _ => poolEffect_getProperty) hread
  obtain ⟨rfl, rfl⟩ := (ends_ret _).mp hret
  obtain ⟨rfl, rfl⟩ := (ends_ret _).mp hrest
  refine ⟨rfl, ?_⟩
  refine congrArg Except.ok ?_
  rw [Bool.eq_iff_iff, decide_eq_true_iff]
  exact (isDebugMode_value r).trans heff.2.1

/-! ## Claiming a number -/

def nextBody : Action (Option Number) :=
  SecurityVault.currentSequence.bind fun c =>
    (setProperty .secMsgCount (Number.add c (.finite 1)).toText).bind fun _ =>
      .ret (some (Number.add c (.finite 1)))

def nextNumber (raw : Option JSString) : Number :=
  Number.add (SecurityVault.countOf raw) (.finite 1)

theorem lockless_nextBody : nextBody.Lockless :=
  ((lockless_getProperty _).bind fun _ => Prog.within_ret _).bind fun _ =>
    (lockless_setProperty _ _).bind fun _ => Prog.within_ret _

theorem nextSequence_eq : SecurityVault.nextSequence =
    Locks.withScriptLock SecurityVault.lockTimeoutMs nextBody (.ret none) := rfl

theorem ends_nextBody {raw raw' : Option JSString} {x : Except JSError (Option Number)}
    (h : Ends (poolEffect debug) (keyed key) counter i raw nextBody raw' x) :
    raw' = some (nextNumber raw).toText ∧ x = .ok (some (nextNumber raw)) := by
  obtain ⟨w, y, hcurrent, hrest⟩ := ends_bind.mp h
  obtain ⟨w', z, hread, hret⟩ := ends_bind.mp hcurrent
  obtain ⟨rfl, s, r, -, rfl, heff, rfl⟩ :=
    ends_getProperty (fun _ _ _ => poolEffect_getProperty) hread
  obtain ⟨rfl, rfl⟩ := (ends_ret _).mp hret
  obtain ⟨rfl, -⟩ := poolEffect_read (by decide) heff
  rw [Prog.orRaise_ok_bind] at hrest
  obtain ⟨w, y, hset, hret⟩ := ends_bind.mp hrest
  obtain ⟨t, t', -, -, heff, rfl⟩ := ends_setProperty hset
  obtain ⟨rfl, rfl⟩ | ⟨hno, -⟩ := heff.2
  · obtain ⟨rfl, rfl⟩ := (ends_ret _).mp hret
    exact ⟨Store.set_self .., rfl⟩
  · exact absurd hno id

/-! ## One execution -/

section Sign

variable [Platform] {message : JSString} {ss : List (Section GAS JSError JSString ι (Option JSString))}
  {x : Except JSError JSString}

def textFor (key : Option JSString) (n : Number) (message : JSString) : JSString :=
  trim message ++ js " [#" ++ n.toText ++ js " " ++
    tagOf (trim (key.getD [])) (n.toText ++ js "|" ++ trim message) ++ js "]"

def finish (message : JSString) : Option Number → Action JSString
  | none =>
    (console .warn (js "Signer: could not claim a sequence number (lock busy) — sending unsigned.")).bind
      fun _ => .ret (trim message)
  | some n => (tag n (trim message)).bind fun t =>
      .ret (trim message ++ js " [#" ++ n.toText ++ js " " ++ t ++ js "]")

/-- What `sign` does once it has read its mode. -/
def inMode (message : JSString) (debugMode : Bool) : Action JSString :=
  (if debugMode then
    SecurityVault.currentSequence.bind fun c => .ret (some (Number.add c (.finite 1)))
  else SecurityVault.nextSequence).bind (finish message)

theorem sign_claim (message : JSString) : sign message = claim.bind (finish message) :=
  congrArg claim.bind (funext fun n => by cases n <;> rfl)

theorem sign_eq (message : JSString) : sign message = Config.isDebugMode.bind (inMode message) := by
  rw [sign_claim, claim, Prog.bind_eq, Prog.bind_assoc]
  rfl

theorem lockless_tag (n : Number) (payload : JSString) : (tag n payload).Lockless :=
  (lockless_require _).bind fun _ => Prog.within_ret _

theorem lockless_finish (message : JSString) (n : Option Number) : (finish message n).Lockless := by
  cases n with
  | none => exact (lockless_console _ _).bind fun _ => Prog.within_ret _
  | some n => exact (lockless_tag _ _).bind fun _ => Prog.within_ret _

theorem lockless_debug (message : JSString) : (inMode message true).Lockless := by
  refine Prog.Lockless.bind (Prog.Lockless.bind ?_ fun _ => Prog.within_ret _)
    (lockless_finish message)
  exact (lockless_getProperty _).bind fun _ => Prog.within_ret _

theorem within_finish (message : JSString) (n : Option Number) :
    (finish message n).Within Footprint.readOnly.allows := by
  cases n with
  | none => exact (Footprint.console _ _).bind fun _ => Prog.within_ret _
  | some n =>
    exact ((Footprint.require trivial).bind fun _ => Prog.within_ret _).bind fun _ =>
      Prog.within_ret _

theorem within_debug (message : JSString) :
    (inMode message true).Within Footprint.readOnly.allows :=
  ((SecurityVault.within_currentSequence trivial).bind fun _ => Prog.within_ret _).bind
    (within_finish message)

theorem finished_unsigned
    (h : Finished (poolEffect debug) (keyed key) i (finish message none) ss x) :
    ss = [] ∧ x = .ok (trim message) := by
  obtain ⟨hss, hends⟩ := Finished.lockless (lockless_finish message none) h
  obtain ⟨w, y, hlog, hrest⟩ := ends_bind.mp hends
  obtain ⟨-, rfl⟩ := ends_console (fun _ _ _ h => h.2) hlog
  exact ⟨hss, ((ends_ret _).mp hrest).2⟩

theorem finished_signed (hkey : Config.isMissing key = false) {n : Number}
    (h : Finished (poolEffect debug) (keyed key) i (finish message (some n)) ss x) :
    ss = [] ∧ x = .ok (textFor key n message) := by
  obtain ⟨hss, hends⟩ := Finished.lockless (lockless_finish message (some n)) h
  obtain ⟨w, y, htag, hrest⟩ := ends_bind.mp hends
  obtain ⟨w', z, hrequire, htag⟩ := ends_bind.mp htag
  obtain ⟨w'', r, hread, hrequire⟩ := ends_bind.mp hrequire
  obtain ⟨-, s, value, hs, -, heff, rfl⟩ :=
    ends_getProperty (fun _ _ _ => poolEffect_getProperty) hread
  obtain ⟨rfl, -⟩ := poolEffect_read (by decide) heff
  have hset : Config.isMissing (s .verifierKey) = false := by rw [hs, hkey]
  simp only [Prog.orRaise_ok_bind, hset, Bool.false_eq_true, ↓reduceIte, Prog.pure_eq, Prog.bind_eq,
    ends_ret] at hrequire
  obtain ⟨-, rfl⟩ := hrequire
  obtain ⟨-, rfl⟩ := (ends_ret _).mp htag
  refine ⟨hss, ((ends_ret _).mp hrest).2.trans ?_⟩
  rw [hs]
  rfl

/-- A finished execution: debug mode took no lock, a busy lock leaves the message unsigned, and one
locked section moves the counter by one and gives its number to the text. -/
theorem finished_sign (hkey : Config.isMissing key = false)
    (hclosed : ∀ s ∈ ss, s.Closed (poolEffect debug) (keyed key) counter)
    (h : Finished (poolEffect debug) (keyed key) i (sign message) ss x) :
    (debug i = true ∧ ss = []) ∨ (debug i = false ∧ ss = [] ∧ x = .ok (trim message)) ∨
      (debug i = false ∧ ∃ s, ss = [s] ∧ s.exit = some (nextNumber s.entry).toText ∧
        x = .ok (textFor key (nextNumber s.entry) message)) := by
  rw [sign_eq] at h
  obtain ⟨y, hmode, h⟩ := Finished.bind lockless_isDebugMode h
  obtain ⟨-, rfl⟩ := ends_isDebugMode hmode
  rw [Prog.orRaise_ok_bind] at h
  cases hd : debug i with
  | true =>
    rw [hd] at h
    exact .inl ⟨rfl, (Finished.lockless (lockless_debug message) h).1⟩
  | false =>
    rw [hd, inMode, if_neg Bool.false_ne_true, nextSequence_eq, withScriptLock_eq] at h
    rcases Finished.locked lockless_nextBody hclosed h with hbusy | ⟨s, rest, y, rfl, -, hbody, hrest⟩
    · rw [Prog.bind_assoc] at hbusy
      obtain ⟨y, hlog, hbusy⟩ := Finished.bind (lockless_console _ _) hbusy
      obtain ⟨-, rfl⟩ := ends_console (fun _ _ _ h => h.2) hlog
      exact .inr (.inl ⟨rfl, finished_unsigned hbusy⟩)
    · obtain ⟨hexit, rfl⟩ := ends_nextBody hbody
      obtain ⟨rfl, rfl⟩ := finished_signed hkey hrest
      exact .inr (.inr ⟨rfl, s, rfl, hexit, rfl⟩)

theorem disciplined_sign (message : JSString) : (sign message).Disciplined protects false := by
  have hreads : ∀ o : Op, Footprint.readOnly.allows (.op o) → ¬ protects o := by
    rintro _ ho ⟨v, rfl⟩
    exact ho
  have hmode : Config.isDebugMode.Disciplined protects false :=
    disciplined_lockless lockless_isDebugMode (Footprint.isDebugMode trivial) hreads
  rw [sign_eq]
  refine hmode.bind fun on => ?_
  cases on with
  | true => exact disciplined_lockless (lockless_debug message) (within_debug message) hreads
  | false =>
    rw [inMode, if_neg Bool.false_ne_true, nextSequence_eq]
    refine Prog.Disciplined.bind ?_ fun n =>
      disciplined_lockless (lockless_finish message n) (within_finish message n) hreads
    exact disciplined_withScriptLock (by simp [protects]) lockless_nextBody rfl

theorem textFor_eq {n : ℕ} (hn : n ≤ 2 ^ 53) (message : JSString) :
    textFor key (.finite n) message = signedText (trim (key.getD [])) n message := by
  have hopen : js " [#" = js " " ++ js "[#" := by decide
  simp [textFor, Number.toText_natCast n hn, signedText, Verifier.Block.text, block, hopen]

end Sign

/-! ## The numbers of a chain -/

theorem nextNumber_of_count {raw : Option JSString} {c : ℕ} (hc : SecurityVault.countOf raw = .finite c)
    (hbound : c + 1 ≤ 2 ^ 53) : nextNumber raw = .finite (c + 1 : ℕ) := by
  rw [nextNumber, hc]
  simpa using Number.add_natCast c 1 hbound

theorem chain_counts {ss : List (Section GAS JSError JSString ι (Option JSString))}
    {raw raw' : Option JSString} {c : ℕ}
    (h : Chain (poolEffect debug) (keyed key) counter raw ss raw')
    (hc : SecurityVault.countOf raw = .finite c) (hbound : c + ss.length ≤ 2 ^ 53)
    (hnext : ∀ t ∈ ss, t.exit = some (nextNumber t.entry).toText) :
    SecurityVault.countOf raw' = .finite (c + ss.length : ℕ) ∧
      ∀ k (hk : k < ss.length), nextNumber ss[k].entry = .finite (c + 1 + k : ℕ) := by
  induction h with
  | nil => exact ⟨by simpa using hc, by simp⟩
  | @snoc ss t front _ ih =>
    rw [List.length_append, List.length_singleton] at hbound
    obtain ⟨hcount, hnumbers⟩ := ih (by omega) fun u hu => hnext u (by simp [hu])
    have hlast : nextNumber t.entry = .finite (c + ss.length + 1 : ℕ) :=
      nextNumber_of_count hcount (by omega)
    refine ⟨?_, fun k hk => ?_⟩
    · rw [hnext t (by simp), hlast, Number.toText_natCast _ (by omega),
        SecurityVault.countOf_decimal (by omega), List.length_append, List.length_singleton]
      rfl
    · rw [List.length_append, List.length_singleton] at hk
      rcases Nat.lt_or_ge k ss.length with hlt | hge
      · rw [List.getElem_append_left hlt]
        exact hnumbers k hlt
      · obtain rfl : k = ss.length := by omega
        rw [List.getElem_append_right (le_refl _)]
        simpa [Nat.add_right_comm] using hlast

/-! ## The pool -/

variable [Platform] [DecidableEq ι] {messages : ι → JSString} {s : Store}
  {p q : Pool GAS JSError JSString ι Store}

omit [Platform] [DecidableEq ι] in
theorem isDebugMode_bind {α : Type} (f : Bool → Action α) : Config.isDebugMode.bind f =
    .perform (.op (.getProperty .debugMode)) fun (r : Option JSString) =>
      f (trim (r.getD []) = js "true") := by
  refine congrArg (Prog.perform _) (funext fun r => congrArg f ?_)
  exact decide_eq_decide.mpr (isDebugMode_value r)

theorem debug_reads (hi : debug i = true)
    (h : Pool.Runs (signEffect debug) (Pool.start (fun i => sign (messages i)) s) p) :
    p.thread i = sign (messages i) ∨ (p.thread i).Within Footprint.readOnly.allows := by
  refine h.thread (I := fun t => t = sign (messages i) ∨ t.Within Footprint.readOnly.allows)
    (.inl rfl) ?_ ?_ ?_
  · rintro o k d r d' (hk | hk) heff
    · rw [sign_eq, isDebugMode_bind] at hk
      cases hk
      have hon : decide (trim (Option.getD r []) = js "true") = true := decide_eq_true (heff.1.mpr hi)
      refine .inr ?_
      dsimp only
      rw [hon]
      exact within_debug (messages i)
    · exact .inr (hk.2 r)
  · rintro n k b (hk | hk)
    · cases hk
    · exact .inr (hk.2 b)
  · rintro k (hk | hk)
    · cases hk
    · exact .inr (hk.2 ())

theorem debug_step (hi : debug i = true)
    (h : Pool.Runs (signEffect debug) (Pool.start (fun i => sign (messages i)) s) p)
    (hstep : Pool.Step (signEffect debug) p i q) : q.data .secMsgCount = p.data .secMsgCount := by
  cases hstep with
  | @op o k r d at_op heff =>
    have ho : ∀ v, o ≠ .setProperty .secMsgCount v := by
      rintro v rfl
      rcases debug_reads hi h with hthread | hthread <;> rw [at_op] at hthread
      · rw [sign_eq, isDebugMode_bind] at hthread
        cases hthread
      · exact hthread.1
    exact signEffect_frame heff ho
  | acquire | timeout | release => rfl

end Threads

/-- **Numbers under concurrency.** -/
theorem sign_pool {ι : Type} [DecidableEq ι] [Platform] (debug : ι → Bool)
    (messages : ι → JSString) (s : Store) (c : ℕ)
    (hkey : Config.isMissing (s .verifierKey) = false)
    (hc : SecurityVault.countOf (s .secMsgCount) = .finite c)
    (p : Pool GAS JSError JSString ι Store)
    (hruns : Pool.Runs (signEffect debug) (Pool.start (fun i => sign (messages i)) s) p)
    (hend : ∀ i, (∃ a, p.thread i = .ret a) ∨ ∃ e, p.thread i = .raise e)
    (hbound : c + p.order.length < 2 ^ 53) :
    p.order.Nodup ∧ (∀ i ∈ p.order, debug i = false) ∧
    (∀ k (hk : k < p.order.length), p.thread p.order[k] =
      .ret (signedText (s.secret .verifierKey) (c + 1 + k) (messages p.order[k]))) ∧
    (∀ i, debug i = false → i ∉ p.order → p.thread i = .ret (trim (messages i))) ∧
    SecurityVault.countOf (p.data .secMsgCount) = .finite (c + p.order.length : ℕ) ∧
    ∀ (q q' : Pool GAS JSError JSString ι Store) (i : ι),
      Pool.Runs (signEffect debug) (Pool.start (fun i => sign (messages i)) s) q →
      Pool.Step (signEffect debug) q i q' → debug i = true →
        q'.data .secMsgCount = q.data .secMsgCount := by
  obtain ⟨ss, hserial⟩ := serialized (poolEffect debug) (keyed (s .verifierKey)) counter protects
    (fun _ _ _ _ _ => poolEffect_good) (fun _ _ _ _ _ => poolEffect_frame) s rfl
    (fun i => disciplined_sign (messages i))
    (Pool.Runs.within (fun i => within_sign (fun _ _ => trivial) rfl) hruns)
  obtain ⟨hchain, horder, htrail⟩ := hserial.complete hend
  have hended : ∀ i, ∃ x, p.thread i = Prog.orRaise x := by
    intro i
    rcases hend i with ⟨a, ha⟩ | ⟨e, he⟩
    · exact ⟨.ok a, ha⟩
    · exact ⟨.error e, he⟩
  have hthread : ∀ i x, p.thread i = Prog.orRaise x → Finished (poolEffect debug)
      (keyed (s .verifierKey)) i (sign (messages i)) (mine i ss) x := by
    intro i x hx
    have h := htrail i
    rwa [hx] at h
  have hclosed := hchain.closed
  have hsection : ∀ t ∈ ss, mine t.tid ss = [t] ∧ debug t.tid = false ∧
      t.exit = some (nextNumber t.entry).toText ∧ p.thread t.tid =
        .ret (textFor (s .verifierKey) (nextNumber t.entry) (messages t.tid)) := by
    intro t ht
    obtain ⟨x, hx⟩ := hended t.tid
    have hmem := mem_mine.mpr ⟨ht, rfl⟩
    obtain ⟨-, hnil⟩ | ⟨-, hnil, -⟩ | ⟨hmode, u, hu, hexit, htext⟩ :=
      finished_sign hkey (fun u hu => hclosed u (mem_mine.mp hu).1) (hthread _ _ hx)
    · simp [hnil] at hmem
    · simp [hnil] at hmem
    · obtain rfl : t = u := by simpa [hu] using hmem
      exact ⟨hu, hmode, hexit, by rw [hx, htext]; rfl⟩
  have hlength : p.order.length = ss.length := by rw [horder, List.length_map]
  obtain ⟨hcount, hnumbers⟩ := chain_counts hchain hc (by omega) fun t ht => (hsection t ht).2.2.1
  refine ⟨?_, ?_, ?_, ?_, by rw [hlength]; exact hcount, fun q q' i hq hstep hi =>
    debug_step hi hq hstep⟩
  · rw [List.nodup_iff_count_le_one]
    intro i
    rw [horder, count_tid]
    cases hmine : mine i ss with
    | nil => simp
    | cons t ts =>
      obtain ⟨ht, rfl⟩ := mem_mine.mp (hmine ▸ List.mem_cons_self : t ∈ mine i ss)
      rw [← hmine, (hsection t ht).1]
      simp
  · intro i hi
    rw [horder] at hi
    obtain ⟨t, ht, rfl⟩ := List.mem_map.mp hi
    exact (hsection t ht).2.1
  · intro k hk
    have hk' : k < ss.length := by omega
    have hget : p.order[k] = ss[k].tid := by simp [horder]
    rw [hget, (hsection ss[k] (List.getElem_mem hk')).2.2.2, hnumbers k hk', textFor_eq (by omega)]
    rfl
  · intro i hmode hi
    obtain ⟨x, hx⟩ := hended i
    rw [horder] at hi
    obtain ⟨hd, -⟩ | ⟨-, -, htext⟩ | ⟨-, u, hu, -⟩ :=
      finished_sign hkey (fun u hu => hclosed u (mem_mine.mp hu).1) (hthread _ _ hx)
    · simp [hmode] at hd
    · rw [hx, htext]
      rfl
    · have hmem : u ∈ mine i ss := by simp [hu]
      exact absurd (List.mem_map.mpr ⟨u, mem_mine.mp hmem⟩) hi

section
open AppsScript

def signAnswer {ι : Type} (debug : ι → Bool) (i : ι) (o : Op) (s : Store) : o.Ret × Store :=
  match o with
  | .getProperty .debugMode => (if debug i then some (js "true") else none, s)
  | o => sampleAnswer i o s

theorem signEffect_answer {ι : Type} (debug : ι → Bool) (i : ι) (o : Op) (s : Store) :
    signEffect debug i o s (signAnswer debug i o s).1 (signAnswer debug i o s).2 := by
  unfold signAnswer
  split
  · refine ⟨?_, rfl⟩
    cases debug i
    · exact iff_of_false (by decide : trim (Option.getD none []) ≠ js "true") Bool.false_ne_true
    · exact iff_of_true (by decide : trim (Option.getD (some (js "true")) []) = js "true") rfl
  · next hne =>
    cases o with
    | setProperty k v => exact .inl ⟨rfl, rfl⟩
    | getProperty k =>
      cases k <;> first | exact ⟨rfl, rfl⟩ | exact absurd rfl hne
    | fetch _ | sleep _ | now | console _ _ => rfl

/-- The second of three executions takes the lock, the first finds it busy, the third is in debug
mode. -/
def samplePool : Pool GAS JSError JSString (Fin 3) Store :=
  [(1, true), (0, true), (1, true), (0, true), (2, true), (1, true), (1, true), (1, true), (0, true),
    (2, true), (1, true), (2, true), (0, true)].foldl (Pool.play (signAnswer (· = 2)))
    (Pool.start (fun i => sign (if i = 0 then js "GLD 240.10" else js "SPY 512.30")) sampleStore)

theorem sign_pool_busy : samplePool.order = [1] ∧
    samplePool.thread 1 = .ret (signedText (sampleStore.secret .verifierKey) 1 (js "SPY 512.30")) ∧
    samplePool.thread 0 = .ret (trim (js "GLD 240.10")) ∧
    SecurityVault.countOf (samplePool.data .secMsgCount) = .finite (1 : ℕ) := by
  have horder : samplePool.order = [1] := by decide +kernel
  have hend : ∀ i, samplePool.ended i = true := by decide +kernel
  have h := sign_pool (fun i : Fin 3 => i = 2)
    (fun i => if i = 0 then js "GLD 240.10" else js "SPY 512.30") sampleStore 0 (by decide)
    (by decide +kernel) samplePool (Pool.runs_play (signEffect_answer _) _)
    (fun i => Pool.ended_iff.mp (hend i)) (by rw [horder]; decide)
  rw [horder] at h
  exact ⟨horder, h.2.2.1 0 (by decide), h.2.2.2.1 0 (by decide) (by decide), h.2.2.2.2.1⟩

end

end Signer
end Spazito
