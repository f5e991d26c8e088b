import Mathlib.Data.List.Nodup
import Mathlib.Logic.Function.Basic

/-! # Loops that rewrite an array in place

A loop writes one entry at each pass, from an entry that it reads. If no pass
reads what an earlier one wrote, every pass reads the array as it was. This is
the case of the two loops that shift an array by one place in either direction.
-/

namespace Sweep

variable {κ ι α : Type*} [DecidableEq ι] {dst src : κ → ι} {h : κ → α → α} {l : List κ}
  {f : ι → α} {k : κ} {j : ι}

/-- At each pass `k` the entry `dst k` is written from the entry `src k`. -/
def sweep (dst src : κ → ι) (h : κ → α → α) (l : List κ) (f : ι → α) : ι → α :=
  l.foldl (fun f k => Function.update f (dst k) (h k (f (src k)))) f

@[simp] theorem sweep_nil : sweep dst src h [] f = f := rfl

theorem sweep_cons :
    sweep dst src h (k :: l) f = sweep dst src h l (Function.update f (dst k) (h k (f (src k)))) :=
  rfl

theorem sweep_of_forall_ne (hj : ∀ k ∈ l, dst k ≠ j) : sweep dst src h l f j = f j := by
  induction l generalizing f with
  | nil => rfl
  | cons k l ih =>
    obtain ⟨hk, hl⟩ := List.forall_mem_cons.mp hj
    rw [sweep_cons, ih hl, Function.update_of_ne hk.symm]

/-- No entry is written twice or read after it was written. -/
def Apart (dst src : κ → ι) (l : List κ) : Prop :=
  l.Pairwise fun a b => dst a ≠ dst b ∧ dst a ≠ src b

theorem sweep_of_mem (hl : Apart dst src l) (hk : k ∈ l) :
    sweep dst src h l f (dst k) = h k (f (src k)) := by
  induction l generalizing f with
  | nil => cases hk
  | cons a l ih =>
    obtain ⟨ha, hl⟩ := List.pairwise_cons.mp hl
    rw [sweep_cons]
    rcases List.mem_cons.mp hk with rfl | hk
    · rw [sweep_of_forall_ne fun b hb => (ha b hb).1.symm, Function.update_self]
    · rw [ih hl hk, Function.update_of_ne (ha k hk).2.symm]

section Shift

variable {f : ℕ → α} {n j : ℕ}

/-- The entries below `n` move up by one place, the last one first. -/
def shiftUp (n : ℕ) (f : ℕ → α) : ℕ → α :=
  sweep (· + 1) id (fun _ a => a) (List.range n).reverse f

/-- The entries from 1 to `n` move down by one place, the first one first. -/
def shiftDown (n : ℕ) (f : ℕ → α) : ℕ → α :=
  sweep id (· + 1) (fun _ a => a) (List.range n) f

theorem shiftUp_apply : shiftUp n f j = if 1 ≤ j ∧ j ≤ n then f (j - 1) else f j := by
  have hapart : Apart (· + 1) id (List.range n).reverse := by
    refine List.pairwise_reverse.mpr (List.pairwise_lt_range.imp ?_)
    rintro a b hab
    simp only [id]
    omega
  split
  case isTrue hj =>
    have hmem : j - 1 ∈ (List.range n).reverse := by simp; omega
    have hshift := sweep_of_mem (h := fun _ a => a) (f := f) hapart hmem
    rwa [Nat.sub_add_cancel hj.1] at hshift
  case isFalse hj =>
    refine sweep_of_forall_ne fun k hk => ?_
    simp only [List.mem_reverse, List.mem_range] at hk
    omega

theorem shiftDown_apply : shiftDown n f j = if j < n then f (j + 1) else f j := by
  have hapart : Apart id (· + 1) (List.range n) := by
    refine List.pairwise_lt_range.imp ?_
    rintro a b hab
    simp only [id]
    omega
  split
  case isTrue hj => exact sweep_of_mem (h := fun _ a => a) hapart (List.mem_range.mpr hj)
  case isFalse hj =>
    refine sweep_of_forall_ne fun k hk => ?_
    simp only [List.mem_range] at hk
    simp only [id]
    omega

end Shift

/-- Every entry of a range is rewritten on its own. -/
theorem sweep_range' {h : ℕ → α → α} {f : ℕ → α} {start n j : ℕ} :
    sweep id id h (List.range' start n) f j =
      if start ≤ j ∧ j < start + n then h j (f j) else f j := by
  have hnodup : (List.range' start n).Nodup := List.nodup_range'
  have hapart : Apart id id (List.range' start n) := hnodup.imp fun h => ⟨h, h⟩
  split
  case isTrue hj => exact sweep_of_mem hapart (List.mem_range'_1.mpr hj)
  case isFalse hj =>
    refine sweep_of_forall_ne fun k hk => ?_
    rintro rfl
    exact hj (List.mem_range'_1.mp hk)

end Sweep
