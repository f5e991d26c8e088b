import Mathlib.Data.Nat.Find
import Mathlib.Order.WellFounded

/-! # Infinite runs

A system takes one enabled action after another. An invariant holds in every
state of a run, and a goal is reached where a rank never grows before it and
keeps falling.
-/

/-- A system of states and actions. -/
structure TransitionSystem (σ α : Type) where
  init : σ
  enabled : σ → α → Prop
  apply : σ → α → σ

namespace TransitionSystem

variable {σ α : Type}

/-- An infinite run from the initial state. -/
structure Trace (S : TransitionSystem σ α) where
  state : ℕ → σ
  action : ℕ → α
  init : state 0 = S.init
  enabled : ∀ n, S.enabled (state n) (action n)
  next : ∀ n, state (n + 1) = S.apply (state n) (action n)

namespace Trace

variable {S : TransitionSystem σ α} (τ : S.Trace)

/-- The states of a sequence of actions. -/
def states (S : TransitionSystem σ α) (actions : ℕ → α) : ℕ → σ
  | 0 => S.init
  | n + 1 => S.apply (states S actions n) (actions n)

def ofActions (actions : ℕ → α) (h : ∀ n, S.enabled (states S actions n) (actions n)) :
    S.Trace where
  state := states S actions
  action := actions
  init := rfl
  enabled := h
  next _ := rfl

/-- What actions are taken again and again, unless they stay disabled again and again. -/
def WeaklyFair (ready : σ → Prop) (taken : α → Prop) : Prop :=
  ∀ n, ∃ m ≥ n, taken (τ.action m) ∨ ¬ ready (τ.state m)

variable {τ}

theorem invariant {P : σ → Prop} (hinit : P S.init)
    (hstep : ∀ s a, S.enabled s a → P s → P (S.apply s a)) (n : ℕ) : P (τ.state n) := by
  induction n with
  | zero =>
    rw [τ.init]
    exact hinit
  | succ n ih =>
    rw [τ.next]
    exact hstep _ _ (τ.enabled n) ih

/-- What every step from some point on keeps holds from there on. -/
theorem stable {P : ℕ → Prop} {n : ℕ} (h : P n) (hstep : ∀ m ≥ n, P m → P (m + 1)) {m : ℕ}
    (hm : n ≤ m) : P m := by
  induction m, hm using Nat.le_induction with
  | base => exact h
  | succ m hm ih => exact hstep m hm ih

/-- A goal is reached when a rank does not grow before it and falls again and again. -/
theorem reaches {β : Type} [LinearOrder β] [WellFoundedLT β] {goal : ℕ → Prop} {n₀ : ℕ}
    (rank : ℕ → β) (hle : ∀ n ≥ n₀, ¬ goal n → rank (n + 1) ≤ rank n)
    (hlt : ∀ n ≥ n₀, (∀ m ≥ n, ¬ goal m) → ∃ m ≥ n, rank (m + 1) < rank m) :
    ∃ n ≥ n₀, goal n := by
  by_contra hnone
  simp only [not_exists, not_and] at hnone
  -- Take a state of least rank.
  obtain ⟨r, ⟨n, hn, rfl⟩, hmin⟩ := wellFounded_lt.has_min {r | ∃ n ≥ n₀, rank n = r}
    ⟨rank n₀, n₀, le_refl _, rfl⟩
  obtain ⟨m, hm, hfall⟩ := hlt n hn fun m hm => hnone m (hn.trans hm)
  have hanti : rank m ≤ rank n := by
    refine stable (P := fun k => rank k ≤ rank n) (le_refl _) (fun k hk ih => ?_) hm
    exact (hle k (hn.trans hk) (hnone k (hn.trans hk))).trans ih
  exact hmin _ ⟨m + 1, (hn.trans hm).trans (Nat.le_succ m), rfl⟩ (hfall.trans_le hanti)

/-- What is ready until it is taken is taken, if its actions are treated fairly. -/
theorem WeaklyFair.exists_taken {ready : σ → Prop} {taken : α → Prop}
    (h : τ.WeaklyFair ready taken) {n : ℕ}
    (hready : ∀ m ≥ n, (∀ k ≥ n, k < m → ¬ taken (τ.action k)) → ready (τ.state m)) :
    ∃ m ≥ n, taken (τ.action m) ∧ ∀ k ≥ n, k < m → ¬ taken (τ.action k) := by
  classical
  have hex : ∃ m, n ≤ m ∧ taken (τ.action m) := by
    by_contra hnone
    simp only [not_exists, not_and] at hnone
    obtain ⟨m, hm, htaken | hready'⟩ := h n
    · exact hnone m hm htaken
    · exact hready' (hready m hm fun k hk _ => hnone k hk)
  obtain ⟨hle, htaken⟩ := Nat.find_spec hex
  refine ⟨Nat.find hex, hle, htaken, fun k hk hlt htaken' => ?_⟩
  exact Nat.find_min hex hlt ⟨hk, htaken'⟩

end Trace

end TransitionSystem
