import Spazito.EcmaJsonRoundTrip
import Spazito.PlatformRuns
import Spazito.Roster
import Spazito.Watchlist

set_option autoImplicit false

/-!
# The watchlist, abstractly

A roster of canonical tickers and a flag; what each operation does to them; and the properties that
stand for them.
-/
namespace Spazito
open Ecma Script

namespace Tickers

instance : DecidablePred Canonical := fun t => decidable_of_iff _ (test_pattern t)

theorem exists_normalizeText {raw : Value} {t : JSString} (h : normalize raw = .ok t) :
    ∃ s, t = normalizeText s := by
  have hempty : normalizeText [] = [] := by decide
  unfold normalize at h
  split at h
  · exact ⟨[], by simpa [hempty] using h.symm⟩
  · exact ⟨[], by simpa [hempty] using h.symm⟩
  · next =>
    cases hv : Value.toText raw with
    | error f =>
      rw [hv] at h
      cases h
    | ok s =>
      rw [hv] at h
      exact ⟨s, (Except.ok.inj h).symm⟩

theorem isValid_normalized {raw : Value} {t : JSString} (h : normalize raw = .ok t) :
    isValid (.str t) = .ok (decide (Canonical t)) := by
  obtain ⟨s, rfl⟩ := exists_normalizeText h
  rw [isValid_str]
  refine congrArg Except.ok ?_
  rw [Bool.eq_iff_iff, decide_eq_true_iff]
  constructor
  · exact canonical_of_isValid s
  · intro hc
    rw [hc.normalizeText_eq]
    exact (test_pattern _).mpr hc

end Tickers

namespace Watchlist

/-- What the properties stand for. -/
structure Tracked where
  roster : Roster JSString Tickers.Canonical maxTickers
  paused : Bool

namespace Tracked

abbrev tickers (a : Tracked) : List JSString := a.roster.items

def initial : Tracked := ⟨⟨defaultTickers, by decide, by decide, by decide⟩, false⟩

end Tracked

inductive Operation
  | add (raw : Value)
  | remove (raw : Value)
  | setPaused (paused : Bool)

/-- What an operation does and answers, nobody else being there. -/
def Operation.apply : Operation → Tracked → Except Fault (Outcome × Tracked)
  | .add raw, a => do
    let t ← Tickers.normalize raw
    if hc : Tickers.Canonical t then
      if hnew : t ∈ a.tickers then return (.duplicate t a.tickers, a)
      else if hroom : a.tickers.length < maxTickers then
        let grown := a.roster.append t hc hnew hroom
        return (.added t grown.items, { a with roster := grown })
      else return (.atCap t a.tickers, a)
    else return (.invalid t, a)
  | .remove raw, a => do
    let t ← Tickers.normalize raw
    if t ∈ a.tickers then
      let shrunk := a.roster.drop t
      return (.removed t shrunk.items (shrunk.items = []), { a with roster := shrunk })
    else return (.notFound t a.tickers, a)
  | .setPaused b, a => return (if b then .paused else .resumed, { a with paused := b })

def Outcome.tickers? : Outcome → Option (List JSString)
  | added _ ts | duplicate _ ts | atCap _ ts | removed _ ts _ | notFound _ ts => some ts
  | invalid _ | paused | resumed | busy => none

theorem Operation.apply_tickers {op : Operation} {a a' : Tracked} {out : Outcome}
    (h : op.apply a = .ok (out, a')) : ∀ ts ∈ out.tickers?, ts = a'.tickers := by
  cases op with
  | add raw =>
    cases hn : Tickers.normalize raw with
    | error f => simp [apply, hn] at h
    | ok t =>
      simp only [apply, hn, ok_bind, pure_eq_ok] at h
      split_ifs at h <;> cases h <;> simp [Outcome.tickers?, Tracked.tickers]
  | remove raw =>
    cases hn : Tickers.normalize raw with
    | error f => simp [apply, hn] at h
    | ok t =>
      simp only [apply, hn, ok_bind, pure_eq_ok] at h
      split_ifs at h <;> cases h <;> simp [Outcome.tickers?, Tracked.tickers]
  | setPaused b =>
    cases h
    cases b <;> simp [Outcome.tickers?]

/-! ## The properties -/

def listText (tickers : List JSString) : JSString := Value.stringify (.arr (tickers.map .str))

abbrev stored (s : Store) : Option JSString × Option JSString := (s .watchlist, s .paused)

theorem stored_set_watchlist (s : Store) (text : JSString) :
    stored (s.set .watchlist text) = (some text, (stored s).2) :=
  congrArg₂ Prod.mk (Store.set_self ..) (Store.set_ne s text (by decide))

theorem stored_set_paused (s : Store) (text : JSString) :
    stored (s.set .paused text) = ((stored s).1, some text) :=
  congrArg₂ Prod.mk (Store.set_ne s text (by decide)) (Store.set_self ..)

structure Represents (a : Tracked) (v : Option JSString × Option JSString) : Prop where
  list : v.1 = some (listText a.tickers) ∨ v.1 = none ∧ a.tickers = defaultTickers
  flag : v.2 = some (js "true") ↔ a.paused = true

theorem Represents.with_list {a : Tracked} {v : Option JSString × Option JSString}
    (h : Represents a v) (r : Roster JSString Tickers.Canonical maxTickers) :
    Represents { a with roster := r } (some (listText r.items), v.2) := ⟨.inl rfl, h.flag⟩

theorem Represents.with_flag {a : Tracked} {v : Option JSString × Option JSString}
    (h : Represents a v) (b : Bool) :
    Represents { a with paused := b } (v.1, some (if b then js "true" else js "false")) := by
  have hne : js "false" ≠ js "true" := by decide
  exact ⟨h.list, by cases b <;> simp [hne]⟩

theorem represents_initial {s : Store} (hw : s .watchlist = none) (hp : s .paused = none) :
    Represents .initial (stored s) where
  list := .inr ⟨hw, rfl⟩
  flag := by simp [hp, Tracked.initial]

/-! ## Reading -/

section Reading

variable [Platform]

/-- What `tickers` does with the property it has read. -/
def tickersFrom : Option JSString → Action (List JSString)
  | none => return defaultTickers
  | some raw =>
    match Value.parse raw with
    | none => corrupted (Platform.faultError (.jsonSyntax raw)).message raw
    | some (.arr parsed) => do
      let clean ← eval (heal [] parsed)
      consoleIf (clean.length ≠ parsed.length) .warn (js "WATCHLIST contained " ++
        decimal (parsed.length - clean.length) ++
        js " invalid/duplicate entr(ies); they were ignored. Stored value: " ++ raw)
      consoleIf (maxTickers < clean.length) .warn (js "WATCHLIST held " ++ decimal clean.length ++
        js " tickers — using only the first " ++ decimal maxTickers ++ js " (ADR 007 cap).")
      return clean.take maxTickers
    | some _ => corrupted (js "WATCHLIST is not an array") raw

theorem tickers_eq : tickers = (getProperty .watchlist).bind tickersFrom :=
  congrArg (getProperty .watchlist).bind (funext fun raw => by cases raw <;> rfl)

omit [Platform] in
/-- The list that a stored text is read as. -/
def tickersOf : Option JSString → Except Fault (List JSString)
  | none => .ok defaultTickers
  | some raw =>
    match Value.parse raw with
    | some (.arr parsed) => do return (← heal [] parsed).take maxTickers
    | _ => .ok defaultTickers

theorem computes_tickersFrom (raw : Option JSString) : Computes (tickersFrom raw) (tickersOf raw) := by
  cases raw with
  | none => exact .ret _
  | some raw =>
    unfold tickersFrom tickersOf
    have hbad (message : JSString) : Computes (corrupted message raw) (.ok defaultTickers) :=
      .afterConsole _ _ (.ret _)
    dsimp only
    cases Value.parse raw with
    | none => exact hbad _
    | some v =>
      cases v with
      | arr parsed =>
        refine (Computes.eval _).bind fun clean w => ?_
        simp only [Prog.bind_eq, Prog.exec_bind, exec_consoleIf, Prog.next_ok]
        rfl
      | _ => exact hbad _

theorem exec_tickers (w : World) : tickers.exec host w =
    ((tickersOf (w.store .watchlist)).mapError Platform.faultError, w) := by
  rw [tickers_eq, Prog.exec_bind, exec_getProperty, Prog.next_ok, computes_tickersFrom]

omit [Platform] in
theorem canonical_of_heal {clean ts : List JSString} {entries : List Value}
    (h : heal clean entries = .ok ts) (hclean : ∀ t ∈ clean, Tickers.Canonical t) :
    ∀ t ∈ ts, Tickers.Canonical t := by
  induction entries generalizing clean with
  | nil =>
    obtain rfl := Except.ok.inj h
    exact hclean
  | cons entry entries ih =>
    rw [heal] at h
    obtain ⟨t, hnorm, h⟩ := bind_eq_ok.mp h
    rw [Tickers.isValid_normalized hnorm, ok_bind] at h
    split_ifs at h with hskip
    · exact ih h hclean
    · refine ih h fun x hx => ?_
      rcases List.mem_append.mp hx with hx | hx
      · exact hclean x hx
      · rw [List.mem_singleton.mp hx]
        simp only [Bool.or_eq_true, Bool.not_eq_true', decide_eq_false_iff_not, not_or, not_not]
          at hskip
        exact hskip.1

omit [Platform] in
theorem tickersOf_tracked {raw : Option JSString} {ts : List JSString} (h : tickersOf raw = .ok ts) :
    (∀ t ∈ ts, Tickers.Canonical t) ∧ ts.length ≤ maxTickers := by
  have hdefault : (∀ t ∈ defaultTickers, Tickers.Canonical t) ∧ defaultTickers.length ≤ maxTickers :=
    ⟨Tracked.initial.roster.admitted, Tracked.initial.roster.bounded⟩
  unfold tickersOf at h
  split at h
  · obtain rfl := Except.ok.inj h
    exact hdefault
  · split at h
    · obtain ⟨clean, hheal, h⟩ := bind_eq_ok.mp h
      obtain rfl := Except.ok.inj h
      refine ⟨fun t ht => ?_, by rw [List.length_take]; exact Nat.min_le_left _ _⟩
      exact canonical_of_heal hheal (by simp) t (List.mem_of_mem_take ht)
    · obtain rfl := Except.ok.inj h
      exact hdefault

omit [Platform] in
theorem heal_canonical (clean ts : List JSString) (hts : ∀ t ∈ ts, Tickers.Canonical t)
    (hnodup : (clean ++ ts).Nodup) : heal clean (ts.map .str) = .ok (clean ++ ts) := by
  induction ts generalizing clean with
  | nil => simp [heal]
  | cons t ts ih =>
    obtain ⟨ht, hts⟩ := List.forall_mem_cons.mp hts
    have hnorm : Tickers.normalize (.str t) = .ok t := by
      rw [Tickers.normalize_str, ht.normalizeText_eq]
    have hnew : t ∉ clean := by
      intro hmem
      exact (List.nodup_append.mp hnodup).2.2 t hmem t (by simp) rfl
    have hcontains : clean.contains t = false := by simpa using hnew
    rw [List.map_cons, heal, hnorm, ok_bind, Tickers.isValid_normalized hnorm,
      ok_bind, decide_eq_true ht, hcontains]
    simpa using ih (clean ++ [t]) hts (by simpa using hnodup)

omit [Platform] in
theorem parse_listText (a : Tracked) :
    Value.parse (listText a.tickers) = some (.arr (a.tickers.map .str)) ∧
      heal [] (a.tickers.map .str) = .ok a.tickers := by
  have hstorable : Value.Storable (.arr (a.tickers.map .str)) := by
    rw [Value.Storable, Value.storableElements_iff]
    simp [Value.Storable]
  exact ⟨Value.parse_stringify _ hstorable, heal_canonical [] _ a.roster.admitted a.roster.nodup⟩

theorem tickersFrom_eq {a : Tracked} {v : Option JSString × Option JSString}
    (h : Represents a v) : tickersFrom v.1 = .ret a.tickers := by
  rcases h.list with hv | ⟨hv, hdefault⟩
  · obtain ⟨hparse, hheal⟩ := parse_listText a
    have hfew : ¬ maxTickers < a.tickers.length := Nat.not_lt.mpr a.roster.bounded
    rw [hv, tickersFrom, hparse]
    simp only [hheal, eval, Prog.bind_eq, Prog.pure_eq, Prog.ret_bind, List.length_map, ne_eq,
      not_true_eq_false, consoleIf, ↓reduceIte, hfew, List.take_of_length_le a.roster.bounded]
  · rw [hv, hdefault]
    rfl

omit [Platform] in
theorem tickersOf_represented {a : Tracked} {v : Option JSString × Option JSString}
    (h : Represents a v) : tickersOf v.1 = .ok a.tickers := by
  rcases h.list with hv | ⟨hv, hdefault⟩
  · obtain ⟨hparse, hheal⟩ := parse_listText a
    simp only [hv, tickersOf, hparse, hheal, ok_bind, pure_eq_ok,
      List.take_of_length_le a.roster.bounded]
  · rw [hv, hdefault]
    rfl

theorem run_tickers {a : Tracked} {w : World} (h : Represents a (stored w.store)) :
    tickers.run host w = ⟨.ok a.tickers, w, [.op (.getProperty .watchlist)]⟩ := by
  rw [tickers_eq, Prog.run_bind, run_getProperty, Result.andThen_ok, tickersFrom_eq h]
  simp

omit [Platform] in
theorem run_isPaused {a : Tracked} {w : World} (h : Represents a (stored w.store)) :
    isPaused.run host w = ⟨.ok a.paused, w, [.op (.getProperty .paused)]⟩ := by
  have hflag : decide (w.store .paused = some (js "true")) = a.paused := by
    rw [Bool.eq_iff_iff, decide_eq_true_iff]
    exact h.flag
  simp [isPaused, Prog.run_bind, hflag]

end Reading
end Watchlist
end Spazito
