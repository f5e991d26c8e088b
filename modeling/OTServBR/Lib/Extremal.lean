import Mathlib

/-! # The best of a list

A loop keeps an element with the best value so far and goes on to a later one
where its value is better. The value it starts from need not be the one of the
element it starts with.
-/

namespace Extremal

variable {α β : Type*} [LinearOrder β] (value : α → β)

/-- The last element that was better than the best value before it. -/
def pick : α → β → List α → α
  | target, _, [] => target
  | target, best, a :: l => if best < value a then pick a (value a) l else pick target best l

variable {value} {target : α} {best : β} {l : List α}

/-- The loop stays where it starts if nothing is better than the value it starts from, and picks a
greatest element of the list otherwise. -/
theorem pick_cases (value : α → β) (target : α) (best : β) (l : List α) :
    (pick value target best l = target ∧ ∀ a ∈ l, value a ≤ best) ∨
    (pick value target best l ∈ l ∧ best < value (pick value target best l) ∧
      ∀ a ∈ l, value a ≤ value (pick value target best l)) := by
  induction l generalizing target best with
  | nil => exact Or.inl ⟨rfl, fun _ hmem => absurd hmem List.not_mem_nil⟩
  | cons a l ih =>
    rw [pick]
    split_ifs with hbetter
    · right
      obtain ⟨hpick, hall⟩ | ⟨hmem, hbest, hall⟩ := ih a (value a)
      · rw [hpick]
        exact ⟨List.mem_cons_self, hbetter, List.forall_mem_cons.mpr ⟨le_refl _, hall⟩⟩
      · exact ⟨List.mem_cons_of_mem _ hmem, hbetter.trans hbest,
          List.forall_mem_cons.mpr ⟨hbest.le, hall⟩⟩
    · have ha : value a ≤ best := not_lt.mp hbetter
      obtain ⟨hpick, hall⟩ | ⟨hmem, hbest, hall⟩ := ih target best
      · exact Or.inl ⟨hpick, List.forall_mem_cons.mpr ⟨ha, hall⟩⟩
      · exact Or.inr ⟨List.mem_cons_of_mem _ hmem, hbest,
          List.forall_mem_cons.mpr ⟨ha.trans hbest.le, hall⟩⟩

theorem pick_mem : pick value target best l ∈ target :: l := by
  obtain ⟨hpick, -⟩ | ⟨hmem, -⟩ := pick_cases value target best l
  · rw [hpick]
    exact List.mem_cons_self
  · exact List.mem_cons_of_mem _ hmem

/-- The loop picks a greatest element if an element of the list is better than the value it starts
from and not worse than the first element, or no element of the list is better than either. -/
theorem forall_le_value_pick_iff :
    (∀ a ∈ target :: l, value a ≤ value (pick value target best l)) ↔
      (∃ a ∈ l, best < value a ∧ value target ≤ value a) ∨
        ∀ a ∈ l, value a ≤ best ∧ value a ≤ value target := by
  rw [List.forall_mem_cons]
  obtain ⟨hpick, hall⟩ | ⟨hmem, hbest, hall⟩ := pick_cases value target best l
  · rw [hpick]
    constructor
    · rintro ⟨-, hle⟩
      exact Or.inr fun a ha => ⟨hall a ha, hle a ha⟩
    · rintro (⟨a, ha, hlt, -⟩ | hle)
      · exact absurd (hall a ha) (not_le.mpr hlt)
      · exact ⟨le_refl _, fun a ha => (hle a ha).2⟩
  · constructor
    · rintro ⟨hle, -⟩
      exact Or.inl ⟨_, hmem, hbest, hle⟩
    · rintro (⟨a, ha, -, hle⟩ | hle)
      · exact ⟨hle.trans (hall a ha), hall⟩
      · exact absurd (hle _ hmem).1 (not_le.mpr hbest)

/-- A loop that starts from the value of its first element picks a greatest one. -/
theorem le_value_pick :
    ∀ a ∈ target :: l, value a ≤ value (pick value target (value target) l) := by
  rw [forall_le_value_pick_iff]
  by_cases h : ∃ a ∈ l, value target < value a
  · obtain ⟨a, ha, hlt⟩ := h
    exact Or.inl ⟨a, ha, hlt, hlt.le⟩
  · right
    intro a ha
    have hle : value a ≤ value target := not_lt.mp fun hlt => h ⟨a, ha, hlt⟩
    exact ⟨hle, hle⟩

end Extremal
