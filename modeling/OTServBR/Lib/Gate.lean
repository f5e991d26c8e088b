import Mathlib.Data.List.Basic
import Mathlib.Logic.Function.Basic

/-! # Gates

A gate lets some of its inputs pass and turns the others away. A gate for each
key treats the inputs of a key as if there were no others.
-/

namespace Gate

variable {σ α κ : Type*} {step : σ → α → Bool × σ} {s : σ} {a : α} {l : List α}

/-- The inputs that pass. -/
def passed (step : σ → α → Bool × σ) : σ → List α → List α
  | _, [] => []
  | s, a :: l =>
    if (step s a).1 then a :: passed step (step s a).2 l else passed step (step s a).2 l

/-- The state after some inputs. -/
def after (step : σ → α → Bool × σ) (s : σ) (l : List α) : σ := l.foldl (fun s a => (step s a).2) s

@[simp] theorem passed_nil : passed step s [] = [] := rfl

theorem passed_cons : passed step s (a :: l) =
    if (step s a).1 then a :: passed step (step s a).2 l else passed step (step s a).2 l := rfl

@[simp] theorem after_nil : after step s [] = s := rfl

@[simp] theorem after_cons : after step s (a :: l) = after step (step s a).2 l := rfl

theorem passed_sublist : (passed step s l).Sublist l := by
  induction l generalizing s with
  | nil => exact List.Sublist.refl _
  | cons a l ih =>
    rw [passed_cons]
    split
    · exact ih.cons_cons a
    · exact ih.cons a

/-- The first inputs that pass are those of the beginning of the list. -/
theorem exists_passed_eq_take (s : σ) (l : List α) (n : ℕ) :
    ∃ l', l' <+: l ∧ passed step s l' = (passed step s l).take n := by
  induction l generalizing s n with
  | nil => exact ⟨[], List.prefix_rfl, by simp⟩
  | cons a l ih =>
    cases n with
    | zero => exact ⟨[], List.nil_prefix, by simp⟩
    | succ n =>
      by_cases hpass : (step s a).1
      · obtain ⟨l', hprefix, htake⟩ := ih (step s a).2 n
        exact ⟨a :: l', List.cons_prefix_cons.2 ⟨rfl, hprefix⟩, by simp [passed_cons, hpass, htake]⟩
      · obtain ⟨l', hprefix, htake⟩ := ih (step s a).2 (n + 1)
        exact ⟨a :: l', List.cons_prefix_cons.2 ⟨rfl, hprefix⟩, by simp [passed_cons, hpass, htake]⟩

section Keyed

variable [DecidableEq κ]

/-- A gate for each key. -/
def keyed (step : σ → α → Bool × σ) (s : κ → σ) (a : κ × α) : Bool × (κ → σ) :=
  ((step (s a.1) a.2).1, Function.update s a.1 (step (s a.1) a.2).2)

/-- The inputs of a key. -/
def ofKey (k : κ) (l : List (κ × α)) : List α := (l.filter (·.1 = k)).map (·.2)

theorem ofKey_cons_self {k : κ} {l : List (κ × α)} : ofKey k ((k, a) :: l) = a :: ofKey k l := by
  simp [ofKey]

theorem ofKey_cons_of_ne {k k' : κ} {l : List (κ × α)} (h : k' ≠ k) :
    ofKey k ((k', a) :: l) = ofKey k l := by
  simp [ofKey, h]

/-- The inputs of other keys make no difference. -/
theorem ofKey_passed_keyed {s : κ → σ} (k : κ) (l : List (κ × α)) :
    ofKey k (passed (keyed step) s l) = passed step (s k) (ofKey k l) := by
  induction l generalizing s with
  | nil => rfl
  | cons a l ih =>
    obtain ⟨k', a⟩ := a
    rw [passed_cons]
    by_cases h : k' = k
    · subst h
      have hself : (keyed step s (k', a)).2 k' = (step (s k') a).2 := Function.update_self ..
      have hpass : (keyed step s (k', a)).1 = (step (s k') a).1 := rfl
      rw [ofKey_cons_self, passed_cons, ← hself, ← ih, hpass]
      split
      · exact ofKey_cons_self
      · rfl
    · have hother : (keyed step s (k', a)).2 k = s k := Function.update_of_ne (Ne.symm h) ..
      rw [ofKey_cons_of_ne h, ← hother, ← ih]
      split
      · exact ofKey_cons_of_ne h
      · rfl

end Keyed

end Gate
