import Mathlib.Data.Nat.Basic
import Mathlib.Logic.Function.Basic

/-! # Tries of a fixed depth

A trie branches on the letters of a word. Where all leaves lie at one depth,
the leaf that is created along a word is found along that word and no other.
-/

/-- A trie whose nodes have a child for every letter; a child may be missing. -/
inductive Trie (κ α : Type)
  | null
  | node (child : κ → Trie κ α)
  | leaf (a : α)

namespace Trie

variable {κ α : Type}

/-- All leaves lie at a depth. -/
def Depth : ℕ → Trie κ α → Prop
  | _, null => True
  | 0, leaf _ => True
  | d + 1, node child => ∀ k, Depth d (child k)
  | _, _ => False

def get : Trie κ α → List κ → Option α
  | null, _ => none
  | leaf a, _ => some a
  | node child, k :: w => get (child k) w
  | node _, [] => none

@[simp] theorem depth_null (d : ℕ) : Depth d (null : Trie κ α) := by
  cases d <;> trivial

@[simp] theorem get_null (w : List κ) : (null : Trie κ α).get w = none := by
  cases w <;> rfl

theorem get_node (child : κ → Trie κ α) (k : κ) (w : List κ) :
    (node child).get (k :: w) = (child k).get w := rfl

variable [DecidableEq κ]

/-- Put a leaf at the end of a word unless there is one. -/
def create (a : α) : Trie κ α → List κ → Trie κ α
  | null, [] => leaf a
  | null, k :: w => node (Function.update (fun _ => null) k (create a null w))
  | node child, k :: w => node (Function.update child k (create a (child k) w))
  | t, _ => t

theorem depth_create (a : α) {w : List κ} {t : Trie κ α} (h : t.Depth w.length) :
    (t.create a w).Depth w.length := by
  induction w generalizing t with
  | nil =>
    cases t with
    | null => trivial
    | node child => exact h.elim
    | leaf b => trivial
  | cons k w ih =>
    cases t with
    | null =>
      intro j
      by_cases hj : j = k
      · subst hj
        rw [Function.update_self]
        exact ih (depth_null _)
      · rw [Function.update_of_ne hj]
        exact depth_null _
    | node child =>
      intro j
      by_cases hj : j = k
      · subst hj
        rw [Function.update_self]
        exact ih (h j)
      · rw [Function.update_of_ne hj]
        exact h j
    | leaf b => exact h.elim

theorem get_create_self (a : α) {w : List κ} {t : Trie κ α} (h : t.Depth w.length) :
    (t.create a w).get w = some ((t.get w).getD a) := by
  induction w generalizing t with
  | nil =>
    cases t with
    | null => rfl
    | node child => exact h.elim
    | leaf b => rfl
  | cons k w ih =>
    cases t with
    | null =>
      rw [create, get_node, Function.update_self, ih (depth_null _), get_null, get_null]
    | node child => rw [create, get_node, Function.update_self, ih (h k), get_node]
    | leaf b => exact h.elim

theorem get_create_of_ne (a : α) {w v : List κ} {t : Trie κ α} (h : t.Depth w.length)
    (hlen : v.length = w.length) (hne : v ≠ w) : (t.create a w).get v = t.get v := by
  induction w generalizing t v with
  | nil => exact absurd (List.eq_nil_of_length_eq_zero hlen) hne
  | cons k w ih =>
    obtain ⟨j, v, rfl⟩ := List.exists_cons_of_length_eq_add_one hlen
    have hlen' : v.length = w.length := Nat.succ.inj hlen
    cases t with
    | null =>
      rw [create, get_node]
      by_cases hj : j = k
      · subst hj
        rw [Function.update_self, ih (depth_null _) hlen' fun heq => hne (congrArg _ heq),
          get_null, get_null]
      · rw [Function.update_of_ne hj, get_null, get_null]
    | node child =>
      rw [create, get_node, get_node]
      by_cases hj : j = k
      · subst hj
        rw [Function.update_self, ih (h j) hlen' fun heq => hne (congrArg _ heq)]
      · rw [Function.update_of_ne hj]
    | leaf b => exact h.elim

end Trie
