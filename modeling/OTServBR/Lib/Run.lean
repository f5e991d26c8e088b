import Mathlib.Data.List.Basic

/-! # Finite runs

A run applies a step function to a list of actions, one after the other. What
every step keeps under a condition, a run keeps whose steps all meet the
condition.
-/

namespace Run

variable {σ α : Type*} {step : σ → α → σ} {ok : σ → α → Prop} {P : σ → Prop} {s : σ} {l : List α}

/-- Every step of the run meets a condition on the state before it. -/
def Steps (step : σ → α → σ) (ok : σ → α → Prop) : σ → List α → Prop
  | _, [] => True
  | s, a :: l => ok s a ∧ Steps step ok (step s a) l

instance (step : σ → α → σ) (ok : σ → α → Prop) [∀ s a, Decidable (ok s a)] (s : σ)
    (l : List α) : Decidable (Steps step ok s l) :=
  match l with
  | [] => isTrue trivial
  | a :: l =>
    have : Decidable (Steps step ok (step s a) l) := instDecidableSteps step ok (step s a) l
    inferInstanceAs (Decidable (ok s a ∧ Steps step ok (step s a) l))

@[simp] theorem steps_nil : Steps step ok s [] := trivial

@[simp] theorem steps_cons {a : α} :
    Steps step ok s (a :: l) ↔ ok s a ∧ Steps step ok (step s a) l := Iff.rfl

theorem steps_append {l' : List α} :
    Steps step ok s (l ++ l') ↔ Steps step ok s l ∧ Steps step ok (l.foldl step s) l' := by
  induction l generalizing s with
  | nil => simp
  | cons a l ih => simp [ih, and_assoc]

theorem invariant (hstep : ∀ s a, P s → ok s a → P (step s a)) (hs : P s)
    (h : Steps step ok s l) : P (l.foldl step s) := by
  induction l generalizing s with
  | nil => exact hs
  | cons a l ih => exact ih (hstep s a hs h.1) h.2

/-- The condition holds at every step. -/
theorem Steps.at {a : α} {n : ℕ} (h : Steps step ok s l) (ha : l[n]? = some a) :
    ok ((l.take n).foldl step s) a := by
  induction l generalizing s n with
  | nil => cases ha
  | cons b l ih =>
    cases n with
    | zero =>
      cases ha
      exact h.1
    | succ n => exact ih h.2 ha

theorem foldl_take_succ {n : ℕ} {a : α} (ha : l[n]? = some a) :
    (l.take (n + 1)).foldl step s = step ((l.take n).foldl step s) a := by
  rw [List.take_add_one, ha, List.foldl_append]
  rfl

theorem foldl_take_of_none {n : ℕ} (ha : l[n]? = none) :
    (l.take (n + 1)).foldl step s = (l.take n).foldl step s := by
  rw [List.take_add_one, ha, List.foldl_append]
  rfl

/-- Where every step decides whether the property stays, it holds along a run exactly if every
step meets the condition. -/
theorem forall_take_iff {I : σ → Prop}
    (hinv : ∀ s a, I s → ok s a → I (step s a))
    (hstep : ∀ s a, I s → P s → (P (step s a) ↔ ok s a)) (hI : I s) (hs : P s) :
    (∀ n, P ((l.take n).foldl step s)) ↔ Steps step ok s l := by
  induction l generalizing s with
  | nil => simp [hs]
  | cons a l ih =>
    rw [steps_cons]
    constructor
    · intro hall
      have hnext : P (step s a) := hall 1
      have hok := (hstep s a hI hs).mp hnext
      exact ⟨hok, (ih (hinv s a hI hok) hnext).mp fun n => hall (n + 1)⟩
    · rintro ⟨hok, hsteps⟩ n
      have hnext := (hstep s a hI hs).mpr hok
      cases n with
      | zero => exact hs
      | succ n => exact (ih (hinv s a hI hok) hnext).mpr hsteps n

end Run
