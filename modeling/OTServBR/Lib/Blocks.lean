import Mathlib.Data.List.Basic
import Mathlib.Algebra.Order.Ring.Nat

/-! # A function on blocks, applied along a list

The list is cut into blocks of `n` entries from the front and what is left at
the end stays as it is.
-/

namespace Blocks

variable {α : Type*} {n : ℕ} {f g : List α → List α} {data b rest : List α}

def eachBlock (n : ℕ) (f : List α → List α) (data : List α) : List α :=
  if 0 < n ∧ n ≤ data.length then f (data.take n) ++ eachBlock n f (data.drop n) else data
termination_by data.length
decreasing_by simp only [List.length_drop]; omega

/-- Blocks of `n` entries become blocks of `n` entries. -/
def Keeps (n : ℕ) (f : List α → List α) : Prop := ∀ b, b.length = n → (f b).length = n

theorem eachBlock_of_lt (h : data.length < n) : eachBlock n f data = data := by
  rw [eachBlock, if_neg (by omega)]

theorem eachBlock_block_append (hn : 0 < n) (hb : b.length = n) :
    eachBlock n f (b ++ rest) = f b ++ eachBlock n f rest := by
  rw [eachBlock, if_pos ⟨hn, by simp [hb]⟩, List.take_left' hb, List.drop_left' hb]

/-- A list is shorter than a block, or it is a block and a shorter list. -/
theorem blocks_induction (hn : 0 < n) {p : List α → Prop} (short : ∀ data, data.length < n → p data)
    (block : ∀ b rest, b.length = n → p rest → p (b ++ rest)) (data : List α) : p data := by
  induction h : data.length using Nat.strong_induction_on generalizing data with
  | _ m ih =>
    subst h
    by_cases hlt : data.length < n
    · exact short data hlt
    · rw [← List.take_append_drop n data]
      refine block _ _ (List.length_take_of_le (by omega)) (ih _ ?_ _ rfl)
      rw [List.length_drop]
      omega

theorem eachBlock_append (h : n ∣ data.length) :
    eachBlock n f (data ++ rest) = eachBlock n f data ++ eachBlock n f rest := by
  rcases Nat.eq_zero_or_pos n with rfl | hn
  · rw [Nat.zero_dvd, List.length_eq_zero_iff] at h
    subst h
    simp [eachBlock]
  · induction data using blocks_induction hn with
    | short data hlt =>
      obtain rfl := List.length_eq_zero_iff.mp (Nat.eq_zero_of_dvd_of_lt h hlt)
      rw [eachBlock_of_lt hlt, List.nil_append, List.nil_append]
    | block b data hb ih =>
      rw [List.length_append, hb, Nat.dvd_add_right (Nat.dvd_refl n)] at h
      rw [List.append_assoc, eachBlock_block_append hn hb, eachBlock_block_append hn hb, ih h,
        List.append_assoc]

@[simp] theorem length_eachBlock (hf : Keeps n f) : (eachBlock n f data).length = data.length := by
  rcases Nat.eq_zero_or_pos n with rfl | hn
  · simp [eachBlock]
  · induction data using blocks_induction hn with
    | short data hlt => rw [eachBlock_of_lt hlt]
    | block b data hb ih =>
      rw [eachBlock_block_append hn hb, List.length_append, List.length_append, hf b hb, hb, ih]

theorem eachBlock_eachBlock (hn : 0 < n) (hf : Keeps n f) (h : ∀ b, b.length = n → g (f b) = b) :
    eachBlock n g (eachBlock n f data) = data := by
  induction data using blocks_induction hn with
  | short data hlt => rw [eachBlock_of_lt hlt, eachBlock_of_lt hlt]
  | block b data hb ih =>
    rw [eachBlock_block_append hn hb, eachBlock_block_append hn (hf b hb), h b hb, ih]

/-- The entries after the last block are untouched. -/
theorem drop_eachBlock (hn : 0 < n) (hf : Keeps n f) :
    (eachBlock n f data).drop (data.length / n * n) = data.drop (data.length / n * n) := by
  induction data using blocks_induction hn with
  | short data hlt => rw [eachBlock_of_lt hlt]
  | block b data hb ih =>
    have hdiv : (b ++ data).length / n * n = n + data.length / n * n := by
      rw [List.length_append, hb, Nat.add_div_left _ hn, Nat.succ_mul, Nat.add_comm]
    rw [eachBlock_block_append hn hb, hdiv, ← List.drop_drop, ← List.drop_drop,
      List.drop_left' (hf b hb), List.drop_left' hb, ih]

end Blocks
