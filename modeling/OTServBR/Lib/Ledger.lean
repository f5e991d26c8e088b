import Mathlib

/-! # Ledgers

A ledger has an account that is to be what a number of places hold together.
Some entries may still be owed. Values of a group are summed up, sets are united:
a group takes back exactly what it was given, a union does so where what is taken
back is in no other place.
-/

namespace Ledger

variable {σ : Type*}

section Sum

variable {A : Type*} [AddCommGroup A] [Fintype σ] {account : A} {owed : List A}
  {held : σ → A} {s : σ} {a : A}

/-- With the entries that are owed the account is the sum of what is held. -/
def Balanced (account : A) (owed : List A) (held : σ → A) : Prop :=
  account + owed.sum = ∑ s, held s

theorem balanced_cons :
    Balanced account (a :: owed) held ↔ Balanced (account + a) owed held := by
  unfold Balanced
  rw [List.sum_cons, add_assoc]

variable [DecidableEq σ]

theorem sum_update : ∑ t, Function.update held s a t = ∑ t, held t - held s + a := by
  rw [Finset.sum_update_of_mem (Finset.mem_univ s), ← Finset.sum_erase_eq_sub (Finset.mem_univ s),
    add_comm, Finset.sdiff_singleton_eq_erase]

theorem Balanced.hold (h : Balanced account owed held) (hs : held s = 0) :
    Balanced (account + a) owed (Function.update held s a) := by
  unfold Balanced at *
  rw [sum_update, hs, ← h]
  abel

theorem Balanced.release (h : Balanced account owed held) :
    Balanced account (-held s :: owed) (Function.update held s 0) := by
  unfold Balanced at *
  rw [sum_update, List.sum_cons, ← h]
  abel

end Sum

section Union

variable {κ : Type*} {account taken : Set κ} {held : σ → Set κ} {s : σ} {a : Set κ}

/-- Without what is still to be taken back the account is the union of what is held. -/
def Covered (account taken : Set κ) (held : σ → Set κ) : Prop := account \ taken = ⋃ s, held s

theorem covered_union : Covered account (a ∪ taken) held ↔ Covered (account \ a) taken held := by
  unfold Covered
  rw [Set.sdiff_sdiff]

variable [DecidableEq σ]

theorem iUnion_update_of_empty (hs : held s = ∅) :
    ⋃ t, Function.update held s a t = (⋃ t, held t) ∪ a := by
  ext k
  simp only [Set.mem_iUnion, Set.mem_union]
  constructor
  · rintro ⟨t, ht⟩
    by_cases hts : t = s
    · subst hts
      rw [Function.update_self] at ht
      exact Or.inr ht
    · rw [Function.update_of_ne hts] at ht
      exact Or.inl ⟨t, ht⟩
  · rintro (⟨t, ht⟩ | hk)
    · refine ⟨t, ?_⟩
      rw [Function.update_of_ne]
      · exact ht
      · rintro rfl
        rw [hs] at ht
        exact ht
    · exact ⟨s, by rw [Function.update_self]; exact hk⟩

theorem iUnion_update_empty (hs : ∀ t ≠ s, Disjoint (held s) (held t)) :
    ⋃ t, Function.update held s ∅ t = (⋃ t, held t) \ held s := by
  ext k
  simp only [Set.mem_iUnion, Set.mem_sdiff]
  constructor
  · rintro ⟨t, ht⟩
    by_cases hts : t = s
    · subst hts
      rw [Function.update_self] at ht
      exact absurd ht (Set.notMem_empty k)
    · rw [Function.update_of_ne hts] at ht
      exact ⟨⟨t, ht⟩, fun hk => Set.disjoint_left.mp (hs t hts) hk ht⟩
  · rintro ⟨⟨t, ht⟩, hk⟩
    refine ⟨t, ?_⟩
    rw [Function.update_of_ne]
    · exact ht
    · rintro rfl
      exact hk ht

theorem Covered.hold (h : Covered account taken held) (hs : held s = ∅) (ha : Disjoint a taken) :
    Covered (account ∪ a) taken (Function.update held s a) := by
  unfold Covered at *
  rw [iUnion_update_of_empty hs, Set.union_sdiff_distrib, h, ha.sdiff_eq_left]

theorem Covered.release (h : Covered account taken held)
    (hs : ∀ t ≠ s, Disjoint (held s) (held t)) :
    Covered account (held s ∪ taken) (Function.update held s ∅) := by
  unfold Covered at *
  rw [iUnion_update_empty hs, ← h, Set.union_comm, Set.sdiff_sdiff]

end Union

end Ledger
