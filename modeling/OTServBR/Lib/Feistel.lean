import Mathlib.Algebra.Group.Basic

/-! # Feistel networks over a group

A round adds a function of each half to the other half, one after the other.
Whatever these functions are, the rounds are undone by subtracting the same
values in the opposite order.
-/

namespace Feistel

variable {G : Type*} [AddGroup G]

/-- The functions of the right and of the left half. -/
structure Round (G : Type*) where
  left : G → G
  right : G → G

namespace Round

variable (f : Round G) (s : G × G)

def apply : G × G :=
  let l := s.1 + f.left s.2
  (l, s.2 + f.right l)

def undo : G × G :=
  let r := s.2 - f.right s.1
  (s.1 - f.left r, r)

@[simp] theorem undo_apply : f.undo (f.apply s) = s := by
  simp [apply, undo]

@[simp] theorem apply_undo : f.apply (f.undo s) = s := by
  simp [apply, undo]

end Round

variable {fs gs : List (Round G)} {f : Round G} {s : G × G}

def rounds (fs : List (Round G)) (s : G × G) : G × G := fs.foldl (fun s f => f.apply s) s

def unrounds (fs : List (Round G)) (s : G × G) : G × G := fs.foldr (fun f s => f.undo s) s

@[simp] theorem rounds_nil : rounds [] s = s := rfl

theorem rounds_cons : rounds (f :: fs) s = rounds fs (f.apply s) := rfl

@[simp] theorem unrounds_nil : unrounds [] s = s := rfl

theorem unrounds_cons : unrounds (f :: fs) s = f.undo (unrounds fs s) := rfl

theorem unrounds_append : unrounds (fs ++ gs) s = unrounds fs (unrounds gs s) :=
  List.foldr_append

@[simp] theorem unrounds_rounds : unrounds fs (rounds fs s) = s := by
  induction fs generalizing s with
  | nil => rfl
  | cons f fs ih => rw [rounds_cons, unrounds_cons, ih, Round.undo_apply]

@[simp] theorem rounds_unrounds : rounds fs (unrounds fs s) = s := by
  induction fs with
  | nil => rfl
  | cons f fs ih => rw [unrounds_cons, rounds_cons, Round.apply_undo, ih]

end Feistel
