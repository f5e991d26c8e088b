import Mathlib.Algebra.BigOperators.Group.Finset.Basic
import Mathlib.Algebra.Order.BigOperators.Group.Finset

/-! # Climbing a ladder of thresholds

An amount climbs from one level to the next as long as it covers the threshold
of the next level, and what is left stays for the level above. A level is the
last one when the threshold after it is not greater than its own. Amounts may be
added in one go or one after the other.
-/

namespace Climb

variable {r : ℕ → ℕ} {T n t n' t' b : ℕ}

/-- An amount climbs `n` levels, and `t` of it is left below the threshold of the next one. -/
structure Below (r : ℕ → ℕ) (T n t : ℕ) : Prop where
  grows : ∀ i ≤ n, r i < r (i + 1)
  sum : t + ∑ i ∈ Finset.range n, r (i + 1) = T
  lt : t < r (n + 1)

/-- An amount reaches the last level, which is the `n`-th one above. -/
structure Tops (r : ℕ → ℕ) (T n : ℕ) : Prop where
  pos : 0 < n
  grows : ∀ i < n, r i < r (i + 1)
  last : r (n + 1) ≤ r n
  sum : ∑ i ∈ Finset.range n, r (i + 1) ≤ T

/-- The ladder from a level on. -/
def shift (r : ℕ → ℕ) (n : ℕ) : ℕ → ℕ := fun i => r (n + i)

theorem sum_range_mono (h : n ≤ n') :
    ∑ i ∈ Finset.range n, r (i + 1) ≤ ∑ i ∈ Finset.range n', r (i + 1) :=
  Finset.sum_le_sum_of_subset (Finset.range_mono h)

theorem sum_range_add : ∑ i ∈ Finset.range (n + n'), r (i + 1) =
    ∑ i ∈ Finset.range n, r (i + 1) + ∑ i ∈ Finset.range n', shift r n (i + 1) :=
  Finset.sum_range_add ..

theorem lt_of_grows (hpos : 0 < n) (h : ∀ i < n, r i < r (i + 1)) : r 0 < r n := by
  induction n with
  | zero => cases hpos
  | succ n ih =>
    have hlast := h n n.lt_succ_self
    rcases Nat.eq_zero_or_pos n with rfl | hn
    · exact hlast
    · exact (ih hn fun i hi => h i (Nat.lt_succ_of_lt hi)).trans hlast

/-! ## One outcome -/

theorem Below.le_of_sum_le (h : Below r T n t)
    (hsum : ∑ i ∈ Finset.range n', r (i + 1) ≤ T) : n' ≤ n := by
  by_contra hlt
  have hmono := sum_range_mono (r := r) (show n + 1 ≤ n' by omega)
  rw [Finset.sum_range_succ] at hmono
  have hsum' := h.sum
  have hlt' := h.lt
  omega

theorem Below.unique (h : Below r T n t) (h' : Below r T n' t') : n = n' ∧ t = t' := by
  have hsum := h.sum
  have hsum' := h'.sum
  have heq : n = n' :=
    le_antisymm (h'.le_of_sum_le (by omega)) (h.le_of_sum_le (by omega))
  subst heq
  exact ⟨rfl, by omega⟩

theorem Tops.not_below (h : Tops r T n) : ¬ Below r T n' t := by
  intro h'
  have hgrows := h'.grows n (h'.le_of_sum_le h.sum)
  exact Nat.lt_irrefl _ (hgrows.trans_le h.last)

theorem Tops.unique (h : Tops r T n) (h' : Tops r T n') : n = n' := by
  have hle : ∀ {n n'}, Tops r T n → Tops r T n' → n' ≤ n := by
    intro n n' h h'
    by_contra hlt
    exact Nat.lt_irrefl _ ((h'.grows n (by omega)).trans_le h.last)
  exact le_antisymm (hle h' h) (hle h h')

/-! ## One step -/

theorem Below.zero (hgrows : r 0 < r 1) (hlt : T < r 1) : Below r T 0 T where
  grows i hi := by
    rw [Nat.le_zero.mp hi]
    exact hgrows
  sum := by rw [Finset.sum_range_zero, Nat.add_zero]
  lt := hlt

theorem Tops.one (hgrows : r 0 < r 1) (hlast : r 2 ≤ r 1) (hle : r 1 ≤ T) : Tops r T 1 where
  pos := Nat.one_pos
  grows i hi := by
    rw [Nat.lt_one_iff.mp hi]
    exact hgrows
  last := hlast
  sum := by
    rw [Finset.sum_range_one]
    exact hle

theorem sum_range_succ_shift : ∑ i ∈ Finset.range (n + 1), r (i + 1) =
    ∑ i ∈ Finset.range n, shift r 1 (i + 1) + r 1 := by
  rw [Finset.sum_range_succ']
  refine congrArg (· + r 1) (Finset.sum_congr rfl fun i _ => ?_)
  rw [shift, Nat.add_comm 1]

theorem grows_succ (hgrows : r 0 < r 1) (h : ∀ i < n, shift r 1 i < shift r 1 (i + 1)) :
    ∀ i < n + 1, r i < r (i + 1) := by
  intro i hi
  cases i with
  | zero => exact hgrows
  | succ i =>
    have hi' := h i (Nat.lt_of_succ_lt_succ hi)
    rwa [shift, shift, Nat.add_comm 1, Nat.add_comm 1] at hi'

theorem Below.succ (hgrows : r 0 < r 1) (hle : r 1 ≤ T)
    (h : Below (shift r 1) (T - r 1) n t) : Below r T (n + 1) t where
  grows i hi := grows_succ hgrows (fun i hi => h.grows i (Nat.le_of_lt_succ hi)) i
    (Nat.lt_succ_of_le hi)
  sum := by
    have hsum := h.sum
    rw [sum_range_succ_shift]
    omega
  lt := by
    have hlt := h.lt
    rwa [shift, Nat.add_comm 1] at hlt

theorem Tops.succ (hgrows : r 0 < r 1) (hle : r 1 ≤ T) (h : Tops (shift r 1) (T - r 1) n) :
    Tops r T (n + 1) where
  pos := Nat.succ_pos n
  grows := grows_succ hgrows h.grows
  last := by
    have hlast := h.last
    rwa [shift, shift, Nat.add_comm 1, Nat.add_comm 1] at hlast
  sum := by
    have hsum := h.sum
    rw [sum_range_succ_shift]
    omega

/-! ## One amount after the other -/

theorem Tops.mono (h : Tops r T n) : Tops r (T + b) n :=
  ⟨h.pos, h.grows, h.last, h.sum.trans (Nat.le_add_right T b)⟩

theorem grows_add (h : ∀ i < n, r i < r (i + 1))
    (h' : ∀ i < n', shift r n i < shift r n (i + 1)) : ∀ i < n + n', r i < r (i + 1) := by
  intro i hi
  rcases Nat.lt_or_ge i n with hlt | hge
  · exact h i hlt
  · obtain ⟨j, rfl⟩ := Nat.exists_eq_add_of_le hge
    exact h' j (by omega)

theorem Below.add (h : Below r T n t) (h' : Below (shift r n) (t + b) n' t') :
    Below r (T + b) (n + n') t' where
  grows i hi := grows_add (fun i hi => h.grows i hi.le)
    (fun i hi => h'.grows i (Nat.le_of_lt_succ hi)) i (Nat.lt_succ_of_le hi)
  sum := by
    have hsum := h.sum
    have hsum' := h'.sum
    rw [sum_range_add]
    omega
  lt := h'.lt

theorem Below.add_tops (h : Below r T n t) (h' : Tops (shift r n) (t + b) n') :
    Tops r (T + b) (n + n') where
  pos := Nat.add_pos_right n h'.pos
  grows := grows_add (fun i hi => h.grows i hi.le) h'.grows
  last := h'.last
  sum := by
    have hsum := h.sum
    have hsum' := h'.sum
    rw [sum_range_add]
    omega

end Climb
