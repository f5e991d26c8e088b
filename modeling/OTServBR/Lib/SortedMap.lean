import Mathlib.Data.List.Sort

/-! # Sorted maps

A map kept as a list of entries sorted by a key, with the insertion that
replaces an entry of the same key. Inserting entries of distinct keys in any
order gives the sorted list of these entries.
-/

namespace SortedMap

variable {α κ : Type} [LinearOrder κ] (key : α → κ)

/-- Insert an entry, replacing the one that has its key. -/
def insert (a : α) : List α → List α
  | [] => [a]
  | b :: m =>
    if key a < key b then a :: b :: m
    else if key a = key b then a :: m
    else b :: insert a m

/-- The map has its entries in increasing order of their keys. -/
def Sorted (m : List α) : Prop := m.Pairwise fun a b => key a < key b

variable {key} {a : α} {m : List α}

theorem mem_insert {x : α} (h : x ∈ insert key a m) : x = a ∨ x ∈ m := by
  induction m with
  | nil => exact .inl (by simpa [insert] using h)
  | cons b m ih =>
    unfold insert at h
    split at h
    · exact List.mem_cons.mp h
    · split at h
      · rcases List.mem_cons.mp h with h | h
        · exact .inl h
        · exact .inr (List.mem_cons_of_mem _ h)
      · rcases List.mem_cons.mp h with h | h
        · exact .inr (by simp [h])
        · exact (ih h).imp_right (List.mem_cons_of_mem _)

/-- An entry with a new key is added. -/
theorem insert_perm (h : ∀ b ∈ m, key b ≠ key a) : (insert key a m).Perm (a :: m) := by
  induction m with
  | nil => rfl
  | cons b m ih =>
    unfold insert
    rw [if_neg (h b (by simp)).symm]
    split
    · rfl
    · exact ((ih fun x hx => h x (by simp [hx])).cons b).trans (.swap a b m)

theorem sorted_insert (h : Sorted key m) : Sorted key (insert key a m) := by
  induction m with
  | nil => simp [insert, Sorted]
  | cons b m ih =>
    obtain ⟨hb, hm⟩ := List.pairwise_cons.mp h
    unfold insert
    split
    · next hab =>
      refine List.pairwise_cons.mpr ⟨fun x hx => ?_, h⟩
      rcases List.mem_cons.mp hx with rfl | hx
      · exact hab
      · exact hab.trans (hb x hx)
    · next hab =>
      split
      · next he => exact List.pairwise_cons.mpr ⟨fun x hx => he ▸ hb x hx, hm⟩
      · next he =>
        refine List.pairwise_cons.mpr ⟨fun x hx => ?_, ih hm⟩
        rcases mem_insert hx with rfl | hx
        · exact lt_of_le_of_ne (not_lt.mp hab) (Ne.symm he)
        · exact hb x hx

/-- Two sorted maps with the same entries are equal. -/
theorem Sorted.eq_of_perm {m' : List α} (h : Sorted key m) (h' : Sorted key m')
    (hp : m.Perm m') : m = m' :=
  hp.eq_of_pairwise (fun _ _ _ _ hab hba => absurd hab (lt_asymm hba)) h h'

theorem Sorted.ne_of_mem {b : α} (h : Sorted key (b :: m)) : ∀ x ∈ m, key x ≠ key b := by
  intro x hx
  exact ((List.pairwise_cons.mp h).1 x hx).ne'

/-- In a sorted map an entry is found under its key. -/
theorem Sorted.find?_eq (h : Sorted key m) {b : α} (hb : b ∈ m) :
    m.find? (fun x => key x == key b) = some b := by
  induction m with
  | nil => cases hb
  | cons c m ih =>
    rcases List.mem_cons.mp hb with rfl | hb
    · simp
    · have hne : key c ≠ key b := (h.ne_of_mem b hb).symm
      rw [List.find?_cons_of_neg (by simpa using hne)]
      exact ih (List.pairwise_cons.mp h).2 hb

/-- Insertion replaces the entry of the key. -/
theorem insert_perm_filter (h : Sorted key m) :
    (insert key a m).Perm (a :: m.filter fun b => key b ≠ key a) := by
  induction m with
  | nil => rfl
  | cons b m ih =>
    obtain ⟨hb, hm⟩ := List.pairwise_cons.mp h
    unfold insert
    split
    · next hlt =>
      have hall : ∀ x ∈ b :: m, decide (key x ≠ key a) = true := by
        intro x hx
        obtain rfl | hx := List.mem_cons.mp hx
        · exact decide_eq_true hlt.ne'
        · exact decide_eq_true (hlt.trans (hb x hx)).ne'
      rw [List.filter_eq_self.mpr hall]
    · split
      · next heq =>
        have hall : ∀ x ∈ m, decide (key x ≠ key a) = true := fun x hx =>
          decide_eq_true (heq ▸ (hb x hx).ne')
        rw [List.filter_cons_of_neg (by simp [heq]), List.filter_eq_self.mpr hall]
      · next hne =>
        rw [List.filter_cons_of_pos (by simpa using Ne.symm hne)]
        exact ((ih hm).cons b).trans (.swap a b _)

/-- Inserting entries of distinct keys replaces the entries of these keys. -/
theorem foldl_insert_perm_filter {l : List α} (hl : (l.map key).Nodup) (h : Sorted key m) :
    Sorted key (l.foldl (fun acc a => insert key a acc) m) ∧
      (l.foldl (fun acc a => insert key a acc) m).Perm
        (l ++ m.filter fun b => key b ∉ l.map key) := by
  induction l generalizing m with
  | nil => simpa using h
  | cons a l ih =>
    obtain ⟨ha, hl⟩ := List.nodup_cons.mp hl
    obtain ⟨hsorted, hperm⟩ := ih hl (sorted_insert h)
    refine ⟨hsorted, hperm.trans ?_⟩
    have hfilter := (insert_perm_filter (a := a) h).filter fun b => key b ∉ l.map key
    rw [List.filter_cons_of_pos (by simpa using ha), List.filter_filter] at hfilter
    refine (hfilter.append_left l).trans (List.perm_middle.trans ?_)
    refine .cons a (.append_left l (.of_eq (List.filter_congr fun b _ => ?_)))
    rw [← Bool.decide_and]
    exact decide_eq_decide.mpr (by rw [List.map_cons, List.mem_cons, not_or, and_comm])

/-- Inserting the entries of a sorted map one by one, in any order, gives this map. -/
theorem foldl_insert {l m : List α} (h : Sorted key m) (hp : l.Perm m) :
    l.foldl (fun acc a => insert key a acc) [] = m := by
  have hinv : ∀ (l acc : List α), Sorted key acc → (l ++ acc).Pairwise (fun a b => key a ≠ key b) →
      Sorted key (l.foldl (fun acc a => insert key a acc) acc) ∧
        (l.foldl (fun acc a => insert key a acc) acc).Perm (l ++ acc) := by
    intro l
    induction l with
    | nil => exact fun acc hs _ => ⟨hs, .refl _⟩
    | cons a l ih =>
      intro acc hs hd
      have hfresh : ∀ b ∈ acc, key b ≠ key a := fun b hb =>
        ((List.pairwise_cons.mp hd).1 b (List.mem_append_right _ hb)).symm
      have hperm := insert_perm hfresh
      have hmid : (l ++ insert key a acc).Perm (a :: l ++ acc) :=
        (hperm.append_left l).trans List.perm_middle
      obtain ⟨hs', hp'⟩ := ih (insert key a acc) (sorted_insert hs)
        ((hmid.pairwise_iff fun h => Ne.symm h).mpr hd)
      exact ⟨hs', hp'.trans hmid⟩
  have hd : (l ++ []).Pairwise fun a b => key a ≠ key b := by
    rw [List.append_nil]
    exact (hp.pairwise_iff fun h => Ne.symm h).mpr (h.imp fun h => h.ne)
  obtain ⟨hs, hp'⟩ := hinv l [] .nil hd
  exact hs.eq_of_perm h (hp'.trans (by rwa [List.append_nil]))

end SortedMap
