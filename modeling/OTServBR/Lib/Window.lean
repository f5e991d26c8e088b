import Mathlib.Data.List.Basic

/-! # Windows on a list

A window shows a bounded number of elements from an index on. After a change of
the list the new window follows from the old one and at most one element that
was outside of it.
-/

namespace List

variable {α β : Type*} {i n k : ℕ} {x : α} {l : List α}

/-- The elements at the indices from `i` to before `i + n`. -/
def window (i n : ℕ) (l : List α) : List α := (l.drop i).take n

theorem getElem?_window {j : ℕ} : (l.window i n)[j]? = if j < n then l[i + j]? else none := by
  rw [window, getElem?_take, getElem?_drop]

theorem length_window : (l.window i n).length = min n (l.length - i) := by
  rw [window, length_take, length_drop]

theorem map_window (f : α → β) : (l.window i n).map f = (l.map f).window i n := by
  rw [window, window, map_take, map_drop]

theorem window_eq_nil (h : l.length ≤ i) : l.window i n = [] := by
  rw [window, drop_of_length_le h, take_nil]

theorem window_min : l.window i (min n (l.length - i)) = l.window i n := by
  rw [window, window, ← length_drop, ← take_take, take_length]

/-- An element in front of the list comes in front of the first window. -/
theorem window_cons : (x :: l).window 0 n = (x :: l.window 0 n).take n := by
  cases n with
  | zero => rfl
  | succ n =>
    rw [window, window, drop_zero, drop_zero, take_succ_cons, take_succ_cons, take_take,
      Nat.min_eq_left n.le_succ]

/-- A window behind which the list goes on does not see what is appended. -/
theorem window_append_of_le (h : i + n ≤ l.length) : (l ++ [x]).window i n = l.window i n := by
  rw [window, window, drop_append_of_le_length (by omega), take_append_of_le_length]
  rw [length_drop]
  omega

theorem window_append_of_lt (hi : i ≤ l.length) (hn : l.length < i + n) :
    (l ++ [x]).window i n = l.window i n ++ [x] := by
  have hshort : (l.drop i).length < n := by
    rw [length_drop]
    omega
  rw [window, window, drop_append_of_le_length hi, take_of_length_le (Nat.le_of_lt hshort),
    take_of_length_le]
  rw [length_append]
  exact hshort

/-- An element that is inserted next to itself pushes itself on. -/
theorem take_insertIdx_succ (h : l[k]? = some x) :
    (l.insertIdx k x).take (k + 1) = l.take (k + 1) := by
  induction l generalizing k with
  | nil => cases h
  | cons y l ih =>
    cases k with
    | zero =>
      rw [getElem?_cons_zero, Option.some.injEq] at h
      rw [insertIdx_zero, h, take_succ_cons, take_succ_cons, take_zero, take_zero]
    | succ k =>
      rw [getElem?_cons_succ] at h
      rw [insertIdx_succ_cons, take_succ_cons, take_succ_cons, ih h]

theorem window_set : (l.set k x).window i n =
    if k < i ∨ i + n ≤ k then l.window i n else (l.window i n).set (k - i) x := by
  refine ext_getElem? fun j => ?_
  split
  · next hk =>
    rw [getElem?_window, getElem?_window]
    split
    · exact getElem?_set_ne (by omega)
    · rfl
  · next hk =>
    rw [getElem?_window, getElem?_set, getElem?_set, getElem?_window, length_window]
    split_ifs <;> first | rfl | omega

theorem window_succ : l.window i (n + 1) = l.window i n ++ l[i + n]?.toList := by
  rw [window, take_add_one, getElem?_drop, window]

/-- When an element before the end of the window is erased, the first one behind it moves in. -/
theorem window_eraseIdx (hn : 0 < n) (hk : k < i + n) :
    (l.eraseIdx k).window i n = (l.window i n).eraseIdx (k - i) ++ l[i + n]?.toList := by
  have herase : (l.eraseIdx k).window i n = (l.window i (n + 1)).eraseIdx (k - i) := by
    refine ext_getElem? fun j => ?_
    rw [getElem?_window, getElem?_eraseIdx, getElem?_eraseIdx, getElem?_window, getElem?_window,
      ← Nat.add_assoc]
    split_ifs <;> first | rfl | omega
  rw [herase, window_succ]
  by_cases hlen : k - i < (l.window i n).length
  · exact eraseIdx_append_of_lt_length hlen _
  · have hnone : l[i + n]? = none := by
      rw [length_window] at hlen
      exact getElem?_eq_none (by omega)
    rw [hnone, Option.toList_none, append_nil, append_nil]

end List
