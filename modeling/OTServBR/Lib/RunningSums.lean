import Mathlib

/-! # Running sums with a delayed reduction

The sum of a list of numbers, and the sum of all its values on the way. Reduced
modulo a number they do not depend on how often they are reduced, and for
bounded entries they grow with the square of the length at most.
-/

namespace RunningSums

/-- Add an entry to the sum, and the new sum to the sum of sums. -/
def add (s : ℕ × ℕ) (x : ℕ) : ℕ × ℕ := (s.1 + x, s.2 + (s.1 + x))

def reduce (m : ℕ) (s : ℕ × ℕ) : ℕ × ℕ := (s.1 % m, s.2 % m)

/-- Reduce after every entry. -/
def addMod (m : ℕ) (s : ℕ × ℕ) (x : ℕ) : ℕ × ℕ := reduce m (add s x)

theorem addMod_reduce (m : ℕ) (s : ℕ × ℕ) (x : ℕ) :
    addMod m (reduce m s) x = reduce m (add s x) := by
  have hfst : s.1 % m ≡ s.1 [MOD m] := Nat.mod_modEq s.1 m
  have hsnd : s.2 % m ≡ s.2 [MOD m] := Nat.mod_modEq s.2 m
  have hsum : s.1 % m + x ≡ s.1 + x [MOD m] := hfst.add_right x
  exact Prod.ext hsum (hsnd.add hsum)

/-- It makes no difference whether the sums are reduced after every entry or at the end. -/
theorem reduce_foldl_add (m : ℕ) (s : ℕ × ℕ) (l : List ℕ) :
    reduce m (l.foldl add s) = l.foldl (addMod m) (reduce m s) := by
  induction l generalizing s with
  | nil => rfl
  | cons x l ih => rw [List.foldl_cons, List.foldl_cons, ih, addMod_reduce]

/-- What the sums of `n` entries up to `c` come to at most, from values up to `r`. -/
theorem foldl_add_le {c r : ℕ} {s : ℕ × ℕ} {l : List ℕ} (hl : ∀ x ∈ l, x ≤ c) (hfst : s.1 ≤ r)
    (hsnd : s.2 ≤ r) : (l.foldl add s).1 ≤ r + c * l.length ∧
      2 * (l.foldl add s).2 ≤ 2 * r * (l.length + 1) + c * (l.length * (l.length + 1)) := by
  induction l using List.reverseRecOn with
  | nil =>
    rw [List.foldl_nil, List.length_nil]
    omega
  | append_singleton l x ih =>
    obtain ⟨hsum, htotal⟩ := ih fun y hy => hl y (List.mem_append_left _ hy)
    have hx := hl x (List.mem_append_right _ (List.mem_singleton.mpr rfl))
    rw [List.foldl_append, List.foldl_cons, List.foldl_nil, List.length_append,
      List.length_singleton]
    constructor
    · calc (add (l.foldl add s) x).1 ≤ r + c * l.length + c := Nat.add_le_add hsum hx
        _ = r + c * (l.length + 1) := by ring
    · calc 2 * (add (l.foldl add s) x).2
          = 2 * (l.foldl add s).2 + 2 * ((l.foldl add s).1 + x) := Nat.mul_add _ _ _
        _ ≤ 2 * r * (l.length + 1) + c * (l.length * (l.length + 1)) +
            2 * (r + c * l.length + c) := by omega
        _ = 2 * r * (l.length + 1 + 1) + c * ((l.length + 1) * (l.length + 1 + 1)) := by ring

/-- The sums of a beginning are no larger than those of the whole list. -/
theorem foldl_add_append_le (s : ℕ × ℕ) (l l' : List ℕ) :
    (l.foldl add s).1 ≤ ((l ++ l').foldl add s).1 ∧
      (l.foldl add s).2 ≤ ((l ++ l').foldl add s).2 := by
  rw [List.foldl_append]
  induction l' using List.reverseRecOn with
  | nil => exact ⟨le_rfl, le_rfl⟩
  | append_singleton l' x ih =>
    rw [List.foldl_append]
    exact ⟨ih.1.trans (Nat.le_add_right _ _), ih.2.trans (Nat.le_add_right _ _)⟩

end RunningSums
