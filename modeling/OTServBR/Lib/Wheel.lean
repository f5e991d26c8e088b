import Mathlib.Algebra.BigOperators.Fin
import Mathlib.Algebra.Order.BigOperators.Group.Finset
import Mathlib.Data.List.Count
import Mathlib.Data.Nat.ModEq

/-! # Timing wheels

A wheel has a number of buckets that are visited in turn. Newcomers wait until
the next flush puts each of them into a bucket. What is counted is how often a
value stands in the wheel.
-/

structure Wheel (α : Type*) (n : ℕ) where
  pending : List α
  buckets : Fin n → List α
  last : Fin n

namespace Wheel

variable {α : Type*} {n : ℕ} {w : Wheel α n} {a b : α} {i j : Fin n}

/-- A newcomer waits at the front. -/
def add (w : Wheel α n) (a : α) : Wheel α n := { w with pending := a :: w.pending }

def setBucket (w : Wheel α n) (i : Fin n) (l : List α) : Wheel α n :=
  { w with buckets := Function.update w.buckets i l }

def push (w : Wheel α n) (i : Fin n) (a : α) : Wheel α n := w.setBucket i (w.buckets i ++ [a])

/-- All that wait go into their buckets. -/
def flush (place : α → Fin n) (w : Wheel α n) : Wheel α n :=
  { w.pending.foldl (fun w a => w.push (place a) a) w with pending := [] }

/-! ## The parts of a wheel -/

@[simp] theorem add_buckets : (w.add a).buckets = w.buckets := rfl

@[simp] theorem add_pending : (w.add a).pending = a :: w.pending := rfl

@[simp] theorem add_last : (w.add a).last = w.last := rfl

@[simp] theorem setBucket_pending {l : List α} : (w.setBucket i l).pending = w.pending := rfl

@[simp] theorem setBucket_last {l : List α} : (w.setBucket i l).last = w.last := rfl

@[simp] theorem setBucket_self {l : List α} : (w.setBucket i l).buckets i = l := by
  simp [setBucket]

theorem setBucket_of_ne {l : List α} (h : j ≠ i) :
    (w.setBucket i l).buckets j = w.buckets j := by
  simp [setBucket, h]

@[simp] theorem flush_pending (place : α → Fin n) : (w.flush place).pending = [] := rfl

theorem foldl_push_pending (place : α → Fin n) (l : List α) :
    (l.foldl (fun w a => w.push (place a) a) w).pending = w.pending := by
  induction l generalizing w with
  | nil => rfl
  | cons b l ih => exact ih

theorem foldl_push_last (place : α → Fin n) (l : List α) :
    (l.foldl (fun w a => w.push (place a) a) w).last = w.last := by
  induction l generalizing w with
  | nil => rfl
  | cons a l ih => exact ih

@[simp] theorem flush_last (place : α → Fin n) : (w.flush place).last = w.last :=
  foldl_push_last place w.pending

theorem foldl_push_buckets (place : α → Fin n) (l : List α) :
    (l.foldl (fun w a => w.push (place a) a) w).buckets i =
      w.buckets i ++ l.filter fun a => place a = i := by
  induction l generalizing w with
  | nil => simp
  | cons a l ih =>
    rw [List.foldl_cons, ih]
    by_cases h : place a = i
    · subst h
      simp [push]
    · simp [push, h, setBucket_of_ne (Ne.symm h)]

theorem flush_buckets (place : α → Fin n) :
    (w.flush place).buckets i = w.buckets i ++ w.pending.filter fun a => place a = i :=
  foldl_push_buckets place w.pending

/-! ## The turns -/

section turn

variable [NeZero n] {last : Fin n} {k l : ℕ}

/-- The bucket that has its turn after `k` ticks. -/
def turn (last : Fin n) (k : ℕ) : Fin n := Fin.ofNat n (last + k)

@[simp] theorem turn_zero : turn last 0 = last := by
  ext
  simp [turn]

theorem turn_one : turn last 1 = last + 1 := by
  ext
  simp [turn, Fin.val_add]

theorem turn_add_one : turn (last + 1) k = turn last (k + 1) := by
  ext
  simp [turn, Fin.val_add, Nat.add_assoc, Nat.add_comm 1]

/-- Within one cycle every bucket has its turn once. -/
theorem turn_ne (hkl : k < l) (hl : l < k + n) : turn last k ≠ turn last l := by
  intro h
  have hmod : last.val + k ≡ last.val + l [MOD n] := congrArg Fin.val h
  have hdvd : n ∣ l - k :=
    (Nat.modEq_iff_dvd' hkl.le).mp (Nat.ModEq.add_left_cancel' _ hmod)
  exact absurd (Nat.le_of_dvd (by omega) hdvd) (by omega)

theorem exists_turn (last i : Fin n) : ∃ k, 1 ≤ k ∧ k ≤ n ∧ i = turn last k := by
  have hlast := last.isLt
  have hi := i.isLt
  rcases Nat.lt_or_ge last.val i.val with h | h
  · refine ⟨i - last, by omega, by omega, Fin.ext ?_⟩
    simp [turn, Nat.add_sub_cancel' h.le]
  · refine ⟨n + i - last, by omega, by omega, Fin.ext ?_⟩
    have hsum : last.val + (n + i.val - last.val) = n + i.val := by omega
    simp [turn, hsum, Nat.mod_eq_of_lt hi]

end turn

/-! ## How often a value stands in a wheel -/

section entries

variable [DecidableEq α]

def entries (w : Wheel α n) (a : α) : ℕ := w.pending.count a + ∑ i, (w.buckets i).count a

theorem entries_eq_zero : w.entries a = 0 ↔ a ∉ w.pending ∧ ∀ i, a ∉ w.buckets i := by
  simp [entries, List.count_eq_zero]

theorem entries_add : (w.add b).entries a = w.entries a + if b = a then 1 else 0 := by
  simp only [entries, add_pending, add_buckets, List.count_cons, beq_iff_eq]
  omega

/-- A bucket gives up its entries for those of the list it is set to. -/
theorem entries_setBucket (l : List α) :
    (w.setBucket i l).entries a + (w.buckets i).count a = w.entries a + l.count a := by
  have hold := Finset.add_sum_erase Finset.univ (fun j => (w.buckets j).count a)
    (Finset.mem_univ i)
  have hsame : ∑ j, ((w.setBucket i l).buckets j).count a =
      l.count a + ∑ j ∈ Finset.univ.erase i, (w.buckets j).count a := by
    rw [← Finset.add_sum_erase Finset.univ _ (Finset.mem_univ i), setBucket_self]
    congr 1
    refine Finset.sum_congr rfl fun j hj => ?_
    rw [setBucket_of_ne (Finset.ne_of_mem_erase hj)]
  simp only [entries, setBucket_pending]
  omega

theorem entries_push : (w.push i b).entries a = w.entries a + if b = a then 1 else 0 := by
  have h := entries_setBucket (w := w) (i := i) (a := a) (w.buckets i ++ [b])
  simp only [List.count_append, List.count_singleton, beq_iff_eq] at h
  unfold push
  omega

theorem entries_foldl_push (place : α → Fin n) (l : List α) :
    (l.foldl (fun w a => w.push (place a) a) w).entries a = w.entries a + l.count a := by
  induction l generalizing w with
  | nil => rfl
  | cons b l ih =>
    rw [List.foldl_cons, ih, entries_push, List.count_cons]
    simp only [beq_iff_eq]
    omega

@[simp] theorem entries_flush (place : α → Fin n) : (w.flush place).entries a = w.entries a := by
  have h := entries_foldl_push (w := w) (a := a) place w.pending
  simp only [entries, foldl_push_pending] at h
  simp only [entries, flush, List.count_nil]
  omega

theorem bucket_count_le (w : Wheel α n) (i : Fin n) (a : α) :
    w.pending.count a + (w.buckets i).count a ≤ w.entries a :=
  Nat.add_le_add_left
    (Finset.single_le_sum (fun j _ => Nat.zero_le ((w.buckets j).count a)) (Finset.mem_univ i)) _

/-- A value that stands in the wheel once stands in one place. -/
theorem bucket_unique (h : w.entries a ≤ 1) (hi : a ∈ w.buckets i) :
    a ∉ w.pending ∧ (∀ j, j ≠ i → a ∉ w.buckets j) ∧ (w.buckets i).count a = 1 := by
  have hpos : 0 < (w.buckets i).count a := List.count_pos_iff.mpr hi
  have hle := bucket_count_le w i a
  refine ⟨List.count_eq_zero.mp (by omega), fun j hj => List.count_eq_zero.mp ?_, by omega⟩
  have hpair := Finset.add_le_sum (fun j _ => Nat.zero_le ((w.buckets j).count a))
    (Finset.mem_univ j) (Finset.mem_univ i) hj
  unfold entries at h
  omega

end entries

end Wheel
