import Spazito.EcmaCase
import Spazito.EcmaJson
import Spazito.EcmaRegex

set_option autoImplicit false

/-! # core/Tickers.js: the canonical form of a ticker -/
namespace Spazito.Tickers
open Ecma

def normalizeText (s : JSString) : JSString := toUpperCase (trim s)

def normalize (raw : Value) : Except Fault JSString :=
  match raw with
  | .undefined | .null => .ok []
  | v => (Value.toText v).map normalizeText

def isTickerHead (u : CodeUnit) : Bool := isUpper u || isDigit u
def isTickerUnit (u : CodeUnit) : Bool := isTickerHead u || u == 46 || u == 45

/-- `/^[A-Z0-9][A-Z0-9.\-]{0,9}$/` -/
def pattern : Regex :=
  .seq .start (.seq (.unit isTickerHead) (.seq (.rep 0 (some 9) (.unit isTickerUnit)) .finish))

def isValid (raw : Value) : Except Fault Bool := (normalize raw).map (Regex.test pattern)

/-! ## Canonical tickers -/

/-- One to ten units, of the letters and digits of a ticker. -/
def Canonical (t : JSString) : Prop :=
  ∃ u w, t = u :: w ∧ isTickerHead u = true ∧ (∀ x ∈ w, isTickerUnit x = true) ∧ w.length ≤ 9

theorem test_pattern (t : JSString) : Regex.test pattern t = true ↔ Canonical t := by
  rw [pattern, Regex.test_start, ne_eq, List.eq_nil_iff_forall_not_mem, not_forall_not]
  constructor
  · rintro ⟨e, he⟩
    obtain ⟨c, hc, he⟩ := Regex.mem_run_seq.mp he
    obtain ⟨u, s, hs, hu, rfl⟩ := Regex.mem_run_unit.mp hc
    obtain ⟨d, hd, he⟩ := Regex.mem_run_seq.mp he
    obtain ⟨w, -, hmost, hw, hpass⟩ :=
      (Regex.mem_run_rep_unit 0 (some 9) (by simp)).mp hd
    obtain ⟨hend, rfl⟩ := Regex.mem_run_finish.mp he
    have hsw : s = w := by simpa [hend] using hpass.1
    exact ⟨u, w, by rw [← hsw]; exact hs, hu, hw, hmost 9 rfl⟩
  · rintro ⟨u, w, rfl, hu, hw, hlen⟩
    refine ⟨⟨w.reverse ++ [u], [], []⟩, Regex.mem_run_seq.mpr
      ⟨⟨[u], w, []⟩, Regex.mem_run_unit.mpr ⟨u, w, rfl, hu, rfl⟩, Regex.mem_run_seq.mpr
        ⟨_, (Regex.mem_run_rep_unit 0 (some 9) (by simp)).mpr ⟨w, ?_⟩,
          Regex.mem_run_finish.mpr ⟨rfl, rfl⟩⟩⟩⟩
    exact ⟨Nat.zero_le _, by rintro m ⟨⟩; exact hlen, hw, by simp [Regex.Cursor.Passes]⟩

theorem isTickerHead_unit {u : CodeUnit} (h : isTickerHead u = true) : isTickerUnit u = true := by
  simp [isTickerUnit, h]

theorem Canonical.unit {t : JSString} (h : Canonical t) : ∀ u ∈ t, isTickerUnit u = true := by
  obtain ⟨u, w, rfl, hu, hw, -⟩ := h
  exact List.forall_mem_cons.mpr ⟨isTickerHead_unit hu, hw⟩

theorem isTickerUnit_plain {u : CodeUnit} (h : isTickerUnit u = true) :
    u < 128 ∧ isLower u = false ∧ isSpace u = false := by
  simp [isTickerUnit, isTickerHead, isUpper, isDigit, UInt16.le_iff_toNat_le,
    ← UInt16.toNat_inj] at h
  refine ⟨?_, ?_, ?_⟩
  · rw [UInt16.lt_iff_toNat_lt]
    simp
    omega
  · simp [isLower, UInt16.le_iff_toNat_le]
    omega
  · simp [isSpace, UInt16.le_iff_toNat_le, ← UInt16.toNat_inj]
    omega

theorem Canonical.normalizeText_eq {t : JSString} (h : Canonical t) : normalizeText t = t := by
  have hplain := fun u hu => isTickerUnit_plain (h.unit u hu)
  have htrim : trim t = t := trim_eq_self
    (fun u hu => (hplain u (List.mem_of_mem_head? hu)).2.2)
    (fun u hu => (hplain u (List.mem_of_mem_getLast? hu)).2.2)
  rw [normalizeText, htrim]
  exact toUpperCase_eq_self t fun u hu => ⟨(hplain u hu).1, (hplain u hu).2.1⟩

theorem normalize_str (s : JSString) : normalize (.str s) = .ok (normalizeText s) := rfl

theorem isValid_str (s : JSString) :
    isValid (.str s) = .ok (Regex.test pattern (normalizeText s)) := rfl

theorem canonical_of_isValid (s : JSString)
    (h : Regex.test pattern (normalizeText (normalizeText s)) = true) :
    Canonical (normalizeText s) := by
  have hc := (test_pattern _).mp h
  rw [normalizeText, normalizeText, trim_toUpperCase_trim] at hc
  have hascii : ∀ u ∈ toUpperCase (toUpperCase (trim s)), u.toNat < 128 := fun u hu =>
    UInt16.lt_iff_toNat_lt.mp (isTickerUnit_plain (hc.unit u hu)).1
  rwa [toUpperCase_toUpperCase hascii] at hc

end Spazito.Tickers
