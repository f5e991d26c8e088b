import Mathlib

/-! # Raster lines

A walk on the integer grid from one corner of a box to the opposite one. In
each step it takes the neighbour that the equation of the line through the
corners likes best, with ties as a chain of comparisons leaves them. Such a walk
moves along the longer side in every step, and never strays from the line by
more than half a field.
-/

namespace Raster

/-- The fields left to walk along each side. -/
@[ext]
structure Rest where
  x : ℕ
  y : ℕ
  deriving DecidableEq, Repr

variable (W H : ℕ) (r : Rest)

/-- The equation of the line in a box of width `W` and height `H`. -/
def error : ℤ := W * r.y - H * r.x

/-- The error after a move along `x`, along `y` and along both. -/
def hor : ℕ := (error W H r + H).natAbs
def ver : ℕ := (error W H r - W).natAbs
def cross : ℕ := (error W H r + H - W).natAbs

def nextY : ℕ :=
  if r.y ≠ 0 ∧ (r.x = 0 ∨ hor W H r > ver W H r ∨ hor W H r > cross W H r) then r.y - 1
  else r.y

/-- The choice along `x` looks at the row that the choice along `y` has left. -/
def nextX (y : ℕ) : ℕ :=
  if r.x ≠ 0 ∧ (y = 0 ∨ ver W H r > hor W H r ∨ ver W H r > cross W H r) then r.x - 1
  else r.x

def step : Rest := ⟨nextX W H r (nextY W H r), nextY W H r⟩

/-- What holds between two steps. -/
structure Near : Prop where
  x_le : r.x ≤ W
  y_le : r.y ≤ H
  error_le : 2 * (error W H r).natAbs ≤ max W H

variable {W H r}

theorem near_start : Near W H ⟨W, H⟩ := by
  refine ⟨le_rfl, le_rfl, ?_⟩
  simp [error, mul_comm]

theorem error_left (h : r.x ≠ 0) : error W H ⟨r.x - 1, r.y⟩ = error W H r + H := by
  obtain ⟨x, hx⟩ := Nat.exists_eq_succ_of_ne_zero h
  simp only [error, hx, Nat.succ_sub_one, Nat.cast_succ]
  ring

theorem error_up (h : r.y ≠ 0) : error W H ⟨r.x, r.y - 1⟩ = error W H r - W := by
  obtain ⟨y, hy⟩ := Nat.exists_eq_succ_of_ne_zero h
  simp only [error, hy, Nat.succ_sub_one, Nat.cast_succ]
  ring

theorem error_both (hx : r.x ≠ 0) (hy : r.y ≠ 0) :
    error W H ⟨r.x - 1, r.y - 1⟩ = error W H r + H - W := by
  rw [error_up (r := ⟨r.x - 1, r.y⟩) hy, error_left hx]

theorem nextX_le (y : ℕ) : nextX W H r y ≤ r.x := by
  unfold nextX
  split_ifs <;> omega

theorem le_nextX (y : ℕ) : r.x ≤ nextX W H r y + 1 := by
  unfold nextX
  split_ifs <;> omega

theorem nextY_le : nextY W H r ≤ r.y := by
  unfold nextY
  split_ifs <;> omega

theorem le_nextY : r.y ≤ nextY W H r + 1 := by
  unfold nextY
  split_ifs <;> omega

/-- Where no row is left, the columns that are left lie to one side of the line. -/
theorem error_last_row (hy : r.y = 0) (hx : r.x ≠ 0) : error W H r + H ≤ 0 := by
  have : (H : ℤ) * 1 ≤ H * r.x := by gcongr; omega
  simp only [error, hy, Nat.cast_zero, mul_zero]
  omega

theorem error_last_column (hx : r.x = 0) (hy : r.y ≠ 0) : 0 ≤ error W H r - W := by
  have : (W : ℤ) * 1 ≤ W * r.y := by gcongr; omega
  simp only [error, hx, Nat.cast_zero, mul_zero]
  omega

/-- With one row left, two columns are too many. -/
theorem error_near_last_row (hy : r.y = 1) (hx : 2 ≤ r.x) : error W H r ≤ W - 2 * H := by
  have : (H : ℤ) * 2 ≤ H * r.x := by gcongr; omega
  simp only [error, hy, Nat.cast_one, mul_one]
  omega

theorem error_corner (hx : r.x = 1) (hy : r.y = 1) : error W H r = W - H := by
  simp [error, hx, hy]

/-- On the diagonal of a square the walk keeps to the line. -/
theorem Near.error_diagonal (h : Near W H r) (hWH : W = H) : error W H r = 0 := by
  have he := h.error_le
  have hE : error W H r = W * ((r.y : ℤ) - r.x) := by
    simp only [error, ← hWH]
    ring
  by_contra hne
  have hd : ((r.y : ℤ) - r.x).natAbs ≠ 0 := by
    intro hd
    rw [Int.natAbs_eq_zero] at hd
    rw [hE, hd, mul_zero] at hne
    exact hne rfl
  rw [hE, Int.natAbs_mul, Int.natAbs_natCast, ← hWH, max_self] at he
  have hle : W * 1 ≤ W * ((r.y : ℤ) - r.x).natAbs := by gcongr; omega
  have hW : W = 0 := by omega
  exact hne (by rw [hE, hW, Nat.cast_zero, zero_mul])

/-- In a box that is not higher than wide, every step moves along `x`. -/
theorem Near.nextX_eq (h : Near W H r) (hWH : H ≤ W) : nextX W H r (nextY W H r) = r.x - 1 := by
  have he := h.error_le
  have hdiag := h.error_diagonal
  have hx := h.x_le
  have hy := h.y_le
  unfold nextX nextY hor ver cross
  generalize error W H r = E at *
  split_ifs <;> omega

/-- In a box that is not wider than high, every step moves along `y`. -/
theorem Near.nextY_eq (h : Near W H r) (hWH : W ≤ H) : nextY W H r = r.y - 1 := by
  have he := h.error_le
  have hdiag := h.error_diagonal
  have hrow := error_last_row (W := W) (H := H) (r := r)
  have hx := h.x_le
  unfold nextY hor ver cross
  generalize error W H r = E at *
  split_ifs <;> omega

theorem Near.step_wide (h : Near W H r) (hWH : H ≤ W) :
    2 * (error W H (step W H r)).natAbs ≤ max W H := by
  have he := h.error_le
  have hy := h.y_le
  have hlast := error_last_column (W := W) (H := H) (r := r)
  rw [step, h.nextX_eq hWH]
  rcases Nat.eq_zero_or_pos r.x with hx | hx
  · have hy0 : r.y = 0 := by omega
    simp [nextY, hx, hy0, error]
  · have hrow := error_last_row (W := W) (H := H) (r := r)
    unfold nextY
    split_ifs with hc
    · rw [error_both hx.ne' hc.1]
      unfold hor ver cross at hc
      omega
    · rw [error_left hx.ne']
      unfold hor ver cross at hc
      omega

theorem Near.step_high (h : Near W H r) (hWH : W ≤ H) :
    2 * (error W H (step W H r)).natAbs ≤ max W H := by
  have he := h.error_le
  have hx := h.x_le
  have hlast := error_last_row (W := W) (H := H) (r := r)
  rw [step, h.nextY_eq hWH]
  rcases Nat.eq_zero_or_pos r.y with hy | hy
  · have hx0 : r.x = 0 := by omega
    simp [nextX, hy, hx0, error]
  · have hcol := error_last_column (W := W) (H := H) (r := r)
    have hnear := error_near_last_row (W := W) (H := H) (r := r)
    have hcorner := error_corner (W := W) (H := H) (r := r)
    unfold nextX
    split_ifs with hc
    · rw [error_both hc.1 hy.ne']
      unfold hor ver cross at hc
      omega
    · rw [error_up hy.ne']
      unfold hor ver cross at hc
      omega

theorem Near.step (h : Near W H r) : Near W H (step W H r) where
  x_le := (nextX_le ..).trans h.x_le
  y_le := (nextY_le ..).trans h.y_le
  error_le := (le_total H W).elim h.step_wide h.step_high

theorem Near.run (h : Near W H r) (n : ℕ) : Near W H ((Raster.step W H)^[n] r) := by
  induction n with
  | zero => exact h
  | succ n ih =>
    rw [Function.iterate_succ_apply']
    exact ih.step

/-- The longer side counts the steps. -/
theorem run_x (hWH : H ≤ W) (n : ℕ) : ((step W H)^[n] ⟨W, H⟩).x = W - n := by
  induction n with
  | zero => rfl
  | succ n ih =>
    rw [Function.iterate_succ_apply', step, (near_start.run n).nextX_eq hWH, ih]
    exact Nat.sub_sub ..

theorem run_y (hWH : W ≤ H) (n : ℕ) : ((step W H)^[n] ⟨W, H⟩).y = H - n := by
  induction n with
  | zero => rfl
  | succ n ih =>
    rw [Function.iterate_succ_apply', step, (near_start.run n).nextY_eq hWH, ih]
    exact Nat.sub_sub ..

/-- A walk is at the end after as many steps as the longer side has fields, and not before. -/
theorem run_eq_zero_iff (n : ℕ) : (step W H)^[n] ⟨W, H⟩ = ⟨0, 0⟩ ↔ max W H ≤ n := by
  have hnear := (near_start (W := W) (H := H)).run n
  have he := hnear.error_le
  have hcol := error_last_column (W := W) (H := H) (r := (step W H)^[n] ⟨W, H⟩)
  have hrow := error_last_row (W := W) (H := H) (r := (step W H)^[n] ⟨W, H⟩)
  have hx := hnear.x_le
  have hy := hnear.y_le
  rw [Rest.ext_iff]
  rcases le_total H W with hWH | hWH
  · have hrun := run_x hWH n
    constructor
    · rintro ⟨hx0, -⟩
      simp only at hx0
      omega
    · intro hn
      constructor <;> simp only <;> omega
  · have hrun := run_y hWH n
    constructor
    · rintro ⟨-, hy0⟩
      simp only at hy0
      omega
    · intro hn
      constructor <;> simp only <;> omega

/-- The walk as rows on the line through the corners, in a box that is not higher than wide. -/
theorem Near.row_le (h : Near W H r) (hWH : H ≤ W) :
    |((H : ℚ) - r.y) - (W - r.x) * H / W| ≤ 1 / 2 := by
  rcases Nat.eq_zero_or_pos W with hW | hW
  · have hH : H = 0 := by omega
    have hy : r.y = 0 := Nat.eq_zero_of_le_zero (hH ▸ h.y_le)
    simp [hH, hy]
  · have he := h.error_le
    rw [max_eq_left hWH] at he
    have hW' : (0 : ℚ) < W := by exact_mod_cast hW
    have hrow : ((H : ℚ) - r.y) - (W - r.x) * H / W = -(error W H r : ℚ) / W := by
      unfold error
      push_cast
      field_simp
      ring
    rw [hrow, abs_div, abs_neg, abs_of_pos hW', div_le_iff₀ hW']
    have he' : (2 : ℚ) * |(error W H r : ℚ)| ≤ W := by
      rw [← Int.cast_abs, Int.abs_eq_natAbs]
      exact_mod_cast he
    linarith

theorem error_swap : error H W ⟨r.y, r.x⟩ = -error W H r := by
  unfold error
  ring

theorem Near.swap (h : Near W H r) : Near H W ⟨r.y, r.x⟩ := by
  refine ⟨h.y_le, h.x_le, ?_⟩
  rw [error_swap, Int.natAbs_neg, max_comm]
  exact h.error_le

end Raster
