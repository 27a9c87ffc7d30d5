import Spazito.AppsScript
import Spazito.EcmaCoercion
import Spazito.StoreRules
import Spazito.WatchlistState

set_option autoImplicit false

/-!
# What the watchlist is read as

Any text may be stored. Reading ends well when every element of the stored array has a text; what is
read are the valid elements in canonical form, each once.
-/
namespace Spazito
open Ecma Script

namespace Tickers

theorem normalize_ok (raw : Value) : (∃ t, normalize raw = .ok t) ↔ raw.Printable := by
  have hmap {v : Value} : (∃ t, (Value.toText v).map normalizeText = .ok t) ↔ v.Printable := by
    rw [← Value.toText_ok]
    cases Value.toText v with
    | ok s => simp [Except.map]
    | error f => simp [Except.map]
  unfold normalize
  split
  · simp [Value.Printable]
  · simp [Value.Printable]
  · exact hmap

end Tickers

namespace Watchlist

theorem heal_ok (clean : List JSString) (entries : List Value) :
    (∃ ts, heal clean entries = .ok ts) ↔ ∀ entry ∈ entries, entry.Printable := by
  induction entries generalizing clean with
  | nil => simp [heal]
  | cons entry entries ih =>
    rw [List.forall_mem_cons, ← Tickers.normalize_ok, heal]
    cases hn : Tickers.normalize entry with
    | error f => simp
    | ok t =>
      rw [ok_bind, Tickers.isValid_normalized hn, ok_bind]
      split_ifs
      · rw [ih]
        simp
      · rw [ih]
        simp

/-- What healing leaves: the canonical normal forms, each where it first occurs. -/
theorem heal_eq {entries : List Value} {names : List JSString}
    (h : entries.mapM Tickers.normalize = .ok names) (clean : List JSString) :
    heal clean entries = .ok (clean ++
      ((names.filter (Tickers.Canonical ·)).filter fun t => !clean.contains t).eraseDups) := by
  have hall := mapM_eq_ok.mp h
  clear h
  induction hall generalizing clean with
  | nil => simp [heal]
  | @cons entry name entries names hn _ ih =>
    rw [heal, hn, ok_bind, Tickers.isValid_normalized hn, ok_bind]
    by_cases hc : Tickers.Canonical name
    · by_cases hold : name ∈ clean
      · simp [hc, hold, ih clean]
      · have hfilter : ((names.filter (Tickers.Canonical ·)).filter fun t => !clean.contains t).filter
            (fun t => !t == name) = (names.filter (Tickers.Canonical ·)).filter
              fun t => !(clean ++ [name]).contains t := by
          rw [List.filter_filter]
          refine List.filter_congr fun t _ => ?_
          by_cases heq : t = name <;> simp [heq]
        simp only [hc, hold, decide_true, Bool.not_true, List.contains_eq_mem, decide_false,
          Bool.or_false, Bool.false_eq_true, ↓reduceIte, ih, List.filter_cons_of_pos, Bool.not_false,
          List.eraseDups_cons]
        simp only [List.contains_eq_mem] at hfilter
        rw [hfilter]
        simp
    · simp [hc, ih clean]

theorem nodup_of_heal {clean ts : List JSString} {entries : List Value}
    (h : heal clean entries = .ok ts) (hclean : clean.Nodup) : ts.Nodup := by
  induction entries generalizing clean with
  | nil =>
    obtain rfl := Except.ok.inj h
    exact hclean
  | cons entry entries ih =>
    rw [heal] at h
    obtain ⟨t, -, h⟩ := bind_eq_ok.mp h
    obtain ⟨valid, -, h⟩ := bind_eq_ok.mp h
    split_ifs at h with hskip
    · exact ih h hclean
    · refine ih h (List.nodup_append.mpr ⟨hclean, List.nodup_singleton t, ?_⟩)
      intro x hx y hy
      rw [List.mem_singleton.mp hy]
      rintro rfl
      simp [hx] at hskip

theorem nodup_of_tickersOf {raw : Option JSString} {ts : List JSString} (h : tickersOf raw = .ok ts) :
    ts.Nodup := by
  have hdefault : defaultTickers.Nodup := Tracked.initial.roster.nodup
  unfold tickersOf at h
  split at h
  · obtain rfl := Except.ok.inj h
    exact hdefault
  · split at h
    · obtain ⟨clean, hheal, h⟩ := bind_eq_ok.mp h
      obtain rfl := Except.ok.inj h
      exact (nodup_of_heal hheal List.nodup_nil).sublist (List.take_sublist _ _)
    · obtain rfl := Except.ok.inj h
      exact hdefault

/-- A stored text whose elements all have a text, if it is an array at all. -/
def Wholesome (raw : Option JSString) : Prop :=
  ∀ text ∈ raw, ∀ entries, Value.parse text = some (.arr entries) → ∀ entry ∈ entries, entry.Printable

theorem tickersOf_ok (raw : Option JSString) : (∃ ts, tickersOf raw = .ok ts) ↔ Wholesome raw := by
  cases raw with
  | none => simp [tickersOf, Wholesome]
  | some text =>
    simp only [tickersOf, Wholesome, Option.mem_some_iff, forall_eq']
    cases hp : Value.parse text with
    | none => simp
    | some v =>
      cases v with
      | arr entries =>
        simp only [Option.some.injEq, Value.arr.injEq, forall_eq', ← heal_ok []]
        constructor
        · rintro ⟨ts, h⟩
          obtain ⟨clean, hclean, -⟩ := bind_eq_ok.mp h
          exact ⟨clean, hclean⟩
        · rintro ⟨clean, h⟩
          exact ⟨_, bind_eq_ok.mpr ⟨clean, h, rfl⟩⟩
      | _ => simp

section Reading

variable [Platform]

theorem returns_tickers (w : World) :
    Returns (tickers.run host w) ↔ Wholesome (w.store .watchlist) := by
  rw [returns_iff (exec_tickers w), ← tickersOf_ok]
  cases tickersOf (w.store .watchlist) with
  | ok ts => simp [Except.mapError]
  | error f => simp [Except.mapError]

/-- **What a damaged watchlist does to its readers.** Whatever is stored they return, unless an
element of the stored array has no text. -/
theorem reads_return (w : World) :
    (Returns (tickers.run host w) ∧
      (∀ raw : Value, raw.Printable → Returns ((has raw).run host w)) ∧
      Returns (isFull.run host w) ∧
      ∀ text ∈ w.store .watchlist, ∀ entries, Value.parse text = some (.arr entries) →
        ∀ entry ∈ entries, ∃ t, Tickers.normalize entry = .ok t) ↔
    Wholesome (w.store .watchlist) := by
  constructor
  · intro h
    exact (returns_tickers w).mp h.1
  · intro h
    obtain ⟨ts, hts⟩ := (tickersOf_ok _).mpr h
    have hread : tickers.exec host w = (.ok ts, w) := by
      rw [exec_tickers, hts]
      rfl
    refine ⟨(returns_tickers w).mpr h, fun raw hraw => ?_, ?_, fun text ht entries hp entry he => ?_⟩
    · obtain ⟨t, ht⟩ := (Tickers.normalize_ok raw).mpr hraw
      have hhas : (has raw).exec host w = (.ok (ts.contains t), w) := by
        unfold has
        simp only [Prog.bind_eq]
        rw [Prog.exec_bind_ok host hread, ht, Prog.exec_bind_ok host (exec_eval_ok w t)]
        rfl
      exact (returns_iff hhas).mpr ⟨_, rfl⟩
    · have hfull : isFull.exec host w = (.ok (decide (maxTickers ≤ ts.length)), w) := by
        unfold isFull
        simp only [Prog.bind_eq]
        rw [Prog.exec_bind_ok host hread]
        rfl
      exact (returns_iff hfull).mpr ⟨_, rfl⟩
    · exact (Tickers.normalize_ok entry).mpr (h text ht entries hp entry he)

theorem exec_store_tickers {ts : List JSString} (hc : ∀ t ∈ ts, Tickers.Canonical t)
    (hnodup : ts.Nodup) (hlen : ts.length ≤ maxTickers) {w : World} (hw : w.env.write 0 = none) :
    ((store ts).bind fun _ => tickers).exec host w =
      (.ok ts, ⟨w.store.set .watchlist (listText ts), w.env.afterWrite⟩) := by
  let a : Tracked := ⟨⟨ts, hnodup, hc, hlen⟩, decide (w.store .paused = some (js "true"))⟩
  have ha : Represents a (stored (w.store.set .watchlist (listText ts))) := by
    rw [stored_set_watchlist]
    exact ⟨.inl rfl, by simp [a]⟩
  have hset : (store ts).exec host w =
      (.ok (), ⟨w.store.set .watchlist (listText ts), w.env.afterWrite⟩) :=
    exec_setProperty _ _ _ hw
  rw [Prog.exec_bind_ok host hset, exec_tickers]
  exact congrArg (fun x => (Except.mapError Platform.faultError x, _)) (tickersOf_represented ha)

/-- **Whatever is read is safe and canonical.** -/
theorem tickers_canonical (w : World) (ts : List JSString)
    (h : (tickers.run host w).outcome = .ok ts) :
    ts.length ≤ maxTickers ∧ ts.Nodup ∧
    (∀ t ∈ ts, Tickers.Canonical t ∧ Tickers.normalize (.str t) = .ok t) ∧
    (w.store .watchlist = none → ts = defaultTickers) ∧
    (∀ text, w.store .watchlist = some text →
      ((∀ entries, Value.parse text ≠ some (.arr entries)) → ts = defaultTickers) ∧
      (Value.parse text = some (.arr []) → ts = []) ∧
      ∀ entries, Value.parse text = some (.arr entries) →
        ∃ names, entries.mapM Tickers.normalize = .ok names ∧
          ts = ((names.filter (Tickers.Canonical ·)).eraseDups).take maxTickers) ∧
    ∀ v : World, v.env.write 0 = none →
      (((store ts).bind fun _ => tickers).run host v).outcome = .ok ts := by
  have hexec := congrArg Prod.fst (exec_tickers w)
  change (tickers.run host w).outcome = _ at hexec
  rw [h] at hexec
  have hof : tickersOf (w.store .watchlist) = .ok ts := by
    cases hof : tickersOf (w.store .watchlist) with
    | ok us =>
      rw [hof] at hexec
      exact congrArg Except.ok (Except.ok.inj hexec).symm
    | error f =>
      rw [hof] at hexec
      cases hexec
  obtain ⟨hcanonical, hlen⟩ := tickersOf_tracked hof
  have hnodup := nodup_of_tickersOf hof
  refine ⟨hlen, hnodup, fun t ht => ⟨hcanonical t ht, ?_⟩, fun hnone => ?_, fun text htext => ?_,
    fun v hv => ?_⟩
  · rw [Tickers.normalize_str, (hcanonical t ht).normalizeText_eq]
  · rw [hnone] at hof
    exact (Except.ok.inj hof).symm
  · rw [htext] at hof
    have harr (entries : List Value) (hp : Value.parse text = some (.arr entries)) :
        ∃ names, entries.mapM Tickers.normalize = .ok names ∧
          ts = ((names.filter (Tickers.Canonical ·)).eraseDups).take maxTickers := by
      obtain ⟨clean, hheal, hts⟩ : ∃ clean, heal [] entries = .ok clean ∧ clean.take maxTickers = ts := by
        simp only [tickersOf, hp] at hof
        obtain ⟨clean, hheal, hts⟩ := bind_eq_ok.mp hof
        exact ⟨clean, hheal, Except.ok.inj hts⟩
      obtain ⟨names, hnames⟩ := exists_mapM fun entry he =>
        (Tickers.normalize_ok entry).mpr ((heal_ok [] entries).mp ⟨clean, hheal⟩ entry he)
      rw [heal_eq hnames] at hheal
      obtain rfl := Except.ok.inj hheal
      refine ⟨names, hnames, ?_⟩
      rw [← hts]
      simp
    refine ⟨fun hno => ?_, fun hp => ?_, harr⟩
    · have hdefault : tickersOf (some text) = .ok defaultTickers := by
        unfold tickersOf
        dsimp only
        split
        · next entries hp => exact absurd hp (hno entries)
        · rfl
      rw [hdefault] at hof
      exact (Except.ok.inj hof).symm
    · obtain ⟨names, hnames, rfl⟩ := harr [] hp
      obtain rfl := Except.ok.inj hnames
      rfl
  · exact congrArg Prod.fst (exec_store_tickers hcanonical hnodup hlen hv)

end Reading

section
open AppsScript

def damagedStore : Store := sampleStore.set .watchlist (js "[\"SPY\",\x7b\"toString\":1\x7d]")

theorem tickers_throws : ¬ ∀ w : World, Returns (tickers.run host w) := by
  intro h
  obtain ⟨ts, hts⟩ := h ⟨damagedStore, sampleEnv⟩
  have hfails : (tickers.run host ⟨damagedStore, sampleEnv⟩).outcome.isOk = false := by
    decide +kernel
  rw [hts] at hfails
  cases hfails

def untidyStore : Store := sampleStore.set .watchlist (js "[\" tsla \",\"TSLA\",7,\x7b\x7d]")

theorem tickers_canonical_untidy :
    (((store [js "TSLA", js "7"]).bind fun _ => tickers).run host
      ⟨sampleStore, sampleEnv⟩).outcome = .ok [js "TSLA", js "7"] :=
  (tickers_canonical ⟨untidyStore, sampleEnv⟩ [js "TSLA", js "7"] (by decide +kernel)).2.2.2.2.2
    ⟨sampleStore, sampleEnv⟩ rfl

end
end Watchlist
end Spazito
