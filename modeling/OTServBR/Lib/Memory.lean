import Mathlib.Data.List.Basic
import Mathlib.Algebra.Order.Ring.Nat

/-! # Byte memory

A memory gives every address its content. A write puts a list of contents at
consecutive addresses and a read takes them from there: it returns what was
written at its place and does not see what was written elsewhere.
-/

namespace Memory

variable {α : Type*} {m : ℕ → α} {p q n k i : ℕ} {l : List α}

def write (m : ℕ → α) (p : ℕ) (l : List α) : ℕ → α := fun i =>
  if h : p ≤ i ∧ i - p < l.length then l.get ⟨i - p, h.2⟩ else m i

def read (m : ℕ → α) (p n : ℕ) : List α := (List.range n).map fun i => m (p + i)

@[simp] theorem length_read : (read m p n).length = n := by simp [read]

theorem read_add : read m p (n + k) = read m p n ++ read m (p + n) k := by
  simp [read, List.range_add, Nat.add_assoc, Function.comp_def]

theorem write_of_lt (h : i < p) : write m p l i = m i := by
  rw [write, dif_neg (by omega)]

theorem write_of_le (h : p + l.length ≤ i) : write m p l i = m i := by
  rw [write, dif_neg (by omega)]

theorem write_add (h : i < l.length) : write m p l (p + i) = l.get ⟨i, h⟩ := by
  rw [write, dif_pos (by omega)]
  congr 2
  omega

@[simp] theorem read_write : read (write m p l) p l.length = l := by
  refine List.ext_getElem length_read fun i _ hi => ?_
  simp only [read, List.getElem_map, List.getElem_range, write_add hi, List.get_eq_getElem]

theorem read_congr {m' : ℕ → α} (h : ∀ i < n, m (p + i) = m' (p + i)) :
    read m p n = read m' p n :=
  List.map_congr_left fun i hi => h i (List.mem_range.mp hi)

theorem read_write_above (h : p + l.length ≤ q) : read (write m p l) q n = read m q n :=
  read_congr fun _ _ => write_of_le (by omega)

theorem read_write_below (h : q + n ≤ p) : read (write m p l) q n = read m q n :=
  read_congr fun _ hi => write_of_lt (by omega)

/-- What is written right after a place is read after it. -/
theorem read_write_append (h : p = q + n) :
    read (write m p l) q (n + l.length) = read m q n ++ l := by
  subst h
  rw [read_add, read_write_below le_rfl, read_write]

/-- What is written right before a place is read before it. -/
theorem read_write_prepend (h : q = p + l.length) :
    read (write m p l) p (l.length + n) = l ++ read m q n := by
  subst h
  rw [read_add, read_write, read_write_above le_rfl]

end Memory
