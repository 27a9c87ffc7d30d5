import Spazito.ScriptSections

set_option autoImplicit false

/-!
# Rules for programs that run alone

Pre- and postconditions by the structure of a program, with one condition for its normal end and one
for its errors; how often it may ask for something; and its run as that of a locked section.
-/
namespace Script

variable {S : Signature} {ε α β σ : Type}

namespace Prog

/-! ## Pre- and postconditions -/

/-- From a state with `I` a normal end is in `Q`, and an error leaves a state with `J`. -/
def Triple (h : Handler S σ) (I : σ → Prop) (p : Prog S ε α) (Q : α → σ → Prop) (J : σ → Prop) :
    Prop :=
  ∀ s, I s → (∀ a, (p.run h s).outcome = .ok a → Q a (p.run h s).state) ∧
    ∀ e, (p.run h s).outcome = .error e → J (p.run h s).state

abbrev Keeps (h : Handler S σ) (I : σ → Prop) (p : Prog S ε α) : Prop := p.Triple h I (fun _ => I) I

section Triple

variable {h : Handler S σ} {I I' J : σ → Prop} {p : Prog S ε α} {Q : α → σ → Prop}

theorem Triple.ret {a : α} (ha : ∀ s, I s → Q a s) : (ret a : Prog S ε α).Triple h I Q J := by
  refine fun s hs => ⟨?_, ?_⟩
  · rintro _ ⟨⟩
    exact ha s hs
  · rintro _ ⟨⟩

theorem Triple.raise {e : ε} (he : ∀ s, I s → J s) : (raise e : Prog S ε α).Triple h I Q J := by
  refine fun s hs => ⟨?_, ?_⟩
  · rintro _ ⟨⟩
  · rintro _ ⟨⟩
    exact he s hs

theorem Triple.bind {R : β → σ → Prop} {f : α → Prog S ε β} (hp : p.Triple h I Q J)
    (hf : ∀ a, (f a).Triple h (Q a) R J) : (p.bind f).Triple h I R J := by
  intro s hs
  rw [run_bind, Result.andThen]
  cases hout : (p.run h s).outcome with
  | ok a => exact hf a _ ((hp s hs).1 a hout)
  | error e => exact ⟨by rintro _ ⟨⟩, fun _ _ => (hp s hs).2 e hout⟩

theorem Triple.catchWith {g : ε → Prog S ε α} {J' : σ → Prop} (hp : p.Triple h I Q J')
    (hg : ∀ e, (g e).Triple h J' Q J) : (p.catchWith g).Triple h I Q J := by
  intro s hs
  rw [run_catchWith, Result.orElse]
  cases hout : (p.run h s).outcome with
  | ok a => exact ⟨fun b hb => (hp s hs).1 b hb, fun e he => by simp [hout] at he⟩
  | error e => exact hg e _ ((hp s hs).2 e hout)

theorem Triple.mono {Q' : α → σ → Prop} {J' : σ → Prop} (hp : p.Triple h I Q J)
    (hI : ∀ s, I' s → I s) (hQ : ∀ a s, Q a s → Q' a s) (hJ : ∀ s, J s → J' s) :
    p.Triple h I' Q' J' :=
  fun s hs => ⟨fun a ha => hQ _ _ ((hp s (hI s hs)).1 a ha), fun e he => hJ _ ((hp s (hI s hs)).2 e he)⟩

theorem Triple.any (p : Prog S ε α) : p.Triple h I (fun _ _ => True) fun _ => True :=
  fun _ _ => ⟨fun _ _ => trivial, fun _ _ => trivial⟩

theorem Triple.keeps (hp : ∀ s, I s → I (p.run h s).state) : p.Keeps h I :=
  fun s hs => ⟨fun _ _ => hp s hs, fun _ _ => hp s hs⟩

theorem Triple.state (hp : p.Keeps h I) {s : σ} (hs : I s) : I (p.run h s).state := by
  cases hout : (p.run h s).outcome with
  | ok a => exact (hp s hs).1 a hout
  | error e => exact (hp s hs).2 e hout

end Triple

/-! ## How often -/

/-- At most `n` commands of a kind, whatever the answers are. -/
def AtMost (P : Cmd S → Prop) : ℕ → Prog S ε α → Prop
  | _, ret _ | _, raise _ => True
  | n, perform c k =>
    (¬ P c ∧ ∀ r, (k r).AtMost P n) ∨ ∃ m, n = m + 1 ∧ ∀ r, (k r).AtMost P m

section AtMost

variable {P : Cmd S → Prop} {p : Prog S ε α} {m n : ℕ}

theorem AtMost.mono (hp : p.AtMost P m) (hmn : m ≤ n) : p.AtMost P n := by
  induction p generalizing m n with
  | ret a => trivial
  | raise e => trivial
  | perform c k ih =>
    rcases hp with ⟨hc, hk⟩ | ⟨m, rfl, hk⟩
    · exact .inl ⟨hc, fun r => ih r (hk r) hmn⟩
    · obtain ⟨n, rfl⟩ : ∃ n', n = n' + 1 := ⟨n - 1, by omega⟩
      exact .inr ⟨n, rfl, fun r => ih r (hk r) (by omega)⟩

theorem Within.atMost {A : Cmd S → Prop} (hp : p.Within A) (hA : ∀ c, A c → ¬ P c) :
    p.AtMost P 0 := by
  induction p with
  | ret a => trivial
  | raise e => trivial
  | perform c k ih => exact .inl ⟨hA c hp.1, fun r => ih r (hp.2 r)⟩

theorem AtMost.bind {f : α → Prog S ε β} (hp : p.AtMost P m) (hf : ∀ a, (f a).AtMost P n) :
    (p.bind f).AtMost P (m + n) := by
  induction p generalizing m with
  | ret a => exact (hf a).mono (Nat.le_add_left n m)
  | raise e => trivial
  | perform c k ih =>
    rcases hp with ⟨hc, hk⟩ | ⟨m, rfl, hk⟩
    · exact .inl ⟨hc, fun r => ih r (hk r)⟩
    · exact .inr ⟨m + n, by omega, fun r => ih r (hk r)⟩

theorem AtMost.catchWith {g : ε → Prog S ε α} (hp : p.AtMost P m) (hg : ∀ e, (g e).AtMost P n) :
    (p.catchWith g).AtMost P (m + n) := by
  induction p generalizing m with
  | ret a => trivial
  | raise e => exact (hg e).mono (Nat.le_add_left n m)
  | perform c k ih =>
    rcases hp with ⟨hc, hk⟩ | ⟨m, rfl, hk⟩
    · exact .inl ⟨hc, fun r => ih r (hk r)⟩
    · exact .inr ⟨m + n, by omega, fun r => ih r (hk r)⟩

theorem AtMost.countP_le [DecidablePred P] (h : Handler S σ) (hp : p.AtMost P n) (s : σ) :
    (p.run h s).performed.countP P ≤ n := by
  induction p generalizing n s with
  | ret a => simp
  | raise e => simp
  | perform c k ih =>
    rw [run_perform, List.countP_cons]
    rcases hp with ⟨hc, hk⟩ | ⟨m, rfl, hk⟩
    · simpa [hc] using ih _ (hk _) _
    · have hle := ih _ (hk (h c s).1) (h c s).2
      split_ifs <;> omega

end AtMost

/-! ## Branches that no answer leads to -/

/-- The same program where every answer satisfies `A`. -/
inductive AlikeOn (A : (c : Cmd S) → c.Ret → Prop) : Prog S ε α → Prog S ε α → Prop
  | ret (a : α) : AlikeOn A (ret a) (ret a)
  | raise (e : ε) : AlikeOn A (raise e) (raise e)
  | perform (c : Cmd S) {k k' : c.Ret → Prog S ε α} (hk : ∀ r, A c r → AlikeOn A (k r) (k' r)) :
      AlikeOn A (perform c k) (perform c k')

section AlikeOn

variable {A : (c : Cmd S) → c.Ret → Prop} {p q : Prog S ε α}

theorem AlikeOn.refl (p : Prog S ε α) : AlikeOn A p p := by
  induction p with
  | ret a => exact .ret a
  | raise e => exact .raise e
  | perform c k ih => exact .perform c fun r _ => ih r

theorem AlikeOn.bind {f g : α → Prog S ε β} (hpq : AlikeOn A p q)
    (hfg : ∀ a, AlikeOn A (f a) (g a)) : AlikeOn A (p.bind f) (q.bind g) := by
  induction hpq with
  | ret a => exact hfg a
  | raise e => exact .raise e
  | perform c _ ih => exact .perform c ih

theorem AlikeOn.catchWith {f g : ε → Prog S ε α} (hpq : AlikeOn A p q)
    (hfg : ∀ e, AlikeOn A (f e) (g e)) : AlikeOn A (p.catchWith f) (q.catchWith g) := by
  induction hpq with
  | ret a => exact .ret a
  | raise e => exact hfg e
  | perform c _ ih => exact .perform c ih

theorem AlikeOn.run_eq {h : Handler S σ} {B : Cmd S → Prop} {I : σ → Prop} (hpq : AlikeOn A p q)
    (hp : p.Within B) (hstep : ∀ c s, B c → I s → A c (h c s).1 ∧ I (h c s).2) {s : σ} (hs : I s) :
    p.run h s = q.run h s := by
  induction hpq generalizing s with
  | ret a => rfl
  | raise e => rfl
  | perform c _ ih =>
    obtain ⟨hanswer, hnext⟩ := hstep c s hp.1 hs
    rw [run_perform, run_perform, ih _ hanswer (hp.2 _) hnext]

end AlikeOn
end Prog

/-! ## A section run alone -/

/-- A run of a program without lock commands is one of its possible ends in a pool. -/
theorem ends_of_run {ι D V : Type} {E : Effect S ι D} {good : D → Prop} {view : D → V} {i : ι}
    {h : Handler S σ} (data : σ → D) (hgood : ∀ s, good (data s))
    (hE : ∀ o s, E i o (data s) (h (.op o) s).1 (data (h (.op o) s).2)) {p : Prog S ε α}
    (hp : p.Lockless) (s : σ) :
    Ends E good view i (view (data s)) p (view (data (p.run h s).state)) (p.run h s).outcome := by
  induction p generalizing s with
  | ret a => exact .ret _ a
  | raise e => exact .raise _ e
  | perform c k ih =>
    obtain ⟨⟨o, rfl⟩, hk⟩ := hp
    exact .op (hgood s) (hE o s) (ih _ (hk _) _)

end Script
