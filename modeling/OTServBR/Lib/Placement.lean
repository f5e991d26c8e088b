import Mathlib.Data.List.Basic
import Mathlib.Logic.Function.Basic

/-! # Writes to places

Values are written one after the other to the places of a table, and a write
outside of the table fails. Where no two of them go to one place, each place
holds its value afterwards and the rest of the table is what it was.
-/

namespace Placement

variable {α κ β : Type*} [DecidableEq κ] (inside : κ → Prop) [DecidablePred inside]

def write (table : κ → β) (k : κ) (b : β) : Option (κ → β) :=
  if inside k then some (Function.update table k b) else none

def writeAll (place : α → κ) (value : α → β) : List α → (κ → β) → Option (κ → β)
  | [], table => some table
  | a :: l, table => (write inside table (place a) (value a)).bind (writeAll place value l)

variable {inside} {place : α → κ} {l : List α}

theorem exists_writeAll (value : α → β) (table : κ → β) (hinside : ∀ a ∈ l, inside (place a))
    (hplace : Function.Injective place) : ∃ written,
      writeAll inside place value l table = some written ∧ (∀ a ∈ l, written (place a) = value a) ∧
      ∀ k, (∀ a ∈ l, place a ≠ k) → written k = table k := by
  induction l generalizing table with
  | nil => exact ⟨table, rfl, fun a ha => absurd ha List.not_mem_nil, fun _ _ => rfl⟩
  | cons a l ih =>
    obtain ⟨hfirst, hrest⟩ := List.forall_mem_cons.mp hinside
    obtain ⟨written, hwritten, hvalue, hkept⟩ :=
      ih (Function.update table (place a) (value a)) hrest
    refine ⟨written, ?_, ?_, ?_⟩
    · rw [writeAll, write, if_pos hfirst]
      exact hwritten
    · refine List.forall_mem_cons.mpr ⟨?_, hvalue⟩
      by_cases hmem : a ∈ l
      · exact hvalue a hmem
      · have hne : ∀ b ∈ l, place b ≠ place a := by
          intro b hb heq
          rw [← hplace heq] at hmem
          exact hmem hb
        rw [hkept _ hne, Function.update_self]
    · intro k hk
      obtain ⟨hne, hk⟩ := List.forall_mem_cons.mp hk
      rw [hkept k hk, Function.update_of_ne hne.symm]

end Placement
