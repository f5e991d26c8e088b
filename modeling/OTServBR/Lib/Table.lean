import Mathlib.Algebra.BigOperators.Group.List.Basic
import Mathlib.Algebra.Order.BigOperators.Group.List
import Mathlib.Algebra.Order.Group.Nat
import Mathlib.Data.List.Nodup

/-! # Tables with a key

A table is a list of rows with distinct keys. A quantity summed over the rows
changes by what happens to the one row an update finds. A table that hands out
its own keys also keeps the next key, which no row ever had.
-/

structure Table {α κ : Type} (key : α → κ) where
  rows : List α
  nodup : (rows.map key).Nodup

namespace Table

variable {α κ M : Type} [DecidableEq κ] {key : α → κ}

def find (t : Table key) (k : κ) : Option α := t.rows.find? fun a => key a = k

/-- Change the row of a key, if there is one. -/
def modify (t : Table key) (k : κ) (f : α → α) (hf : ∀ a, key (f a) = key a) : Table key where
  rows := t.rows.map fun a => if key a = k then f a else a
  nodup := by
    have hkey : (key ∘ fun a => if key a = k then f a else a) = key := by
      funext a
      simp only [Function.comp_apply]
      split
      · exact hf a
      · rfl
    rw [List.map_map, hkey]
    exact t.nodup

def erase (t : Table key) (k : κ) : Table key where
  rows := t.rows.filter fun a => key a ≠ k
  nodup := t.nodup.sublist (List.filter_sublist.map key)

def sum [AddCommMonoid M] (t : Table key) (v : α → M) : M := (t.rows.map v).sum

variable {t : Table key} {k : κ} {a : α} {f : α → α} (hf : ∀ a, key (f a) = key a)

omit [DecidableEq κ] in
theorem eq_of_key_eq {b : α} (ha : a ∈ t.rows) (hb : b ∈ t.rows) (h : key a = key b) : a = b :=
  List.inj_on_of_nodup_map t.nodup ha hb h

theorem key_of_find (h : t.find k = some a) : key a = k := by
  simpa using List.find?_some h

theorem mem_of_find (h : t.find k = some a) : a ∈ t.rows :=
  List.mem_of_find?_eq_some h

/-- The row of a key is the only row with this key. -/
theorem find_eq_some : t.find k = some a ↔ a ∈ t.rows ∧ key a = k := by
  constructor
  · intro h
    exact ⟨mem_of_find h, key_of_find h⟩
  · rintro ⟨ha, rfl⟩
    cases hb : t.find (key a) with
    | none => simpa using List.find?_eq_none.mp hb a ha
    | some b => rw [eq_of_key_eq (mem_of_find hb) ha (key_of_find hb)]

theorem find_self (ha : a ∈ t.rows) : t.find (key a) = some a :=
  find_eq_some.mpr ⟨ha, rfl⟩

theorem mem_modify {b : α} :
    b ∈ (t.modify k f hf).rows ↔ ∃ a ∈ t.rows, b = if key a = k then f a else a := by
  simp only [modify, List.mem_map, eq_comm]

theorem mem_erase : a ∈ (t.erase k).rows ↔ a ∈ t.rows ∧ key a ≠ k := by
  simp [erase]

theorem find_modify_self (h : t.find k = some a) : (t.modify k f hf).find k = some (f a) := by
  have hk := key_of_find h
  refine find_eq_some.mpr ⟨(mem_modify hf).mpr ⟨a, mem_of_find h, ?_⟩, (hf a).trans hk⟩
  rw [if_pos hk]

theorem find_modify_of_ne {j : κ} (hj : j ≠ k) : (t.modify k f hf).find j = t.find j := by
  ext a
  rw [find_eq_some, find_eq_some, mem_modify hf]
  constructor
  · rintro ⟨⟨b, hb, rfl⟩, hkey⟩
    split at hkey
    · next hbk => exact absurd ((hf b).symm.trans hkey).symm (by rw [hbk]; exact hj)
    · next hbk => exact ⟨by rwa [if_neg hbk], by rwa [if_neg hbk]⟩
  · rintro ⟨ha, hkey⟩
    exact ⟨⟨a, ha, by rw [if_neg (by rw [hkey]; exact hj)]⟩, hkey⟩

/-- An update keeps the keys. -/
theorem find_modify_isSome {j : κ} : ((t.modify k f hf).find j).isSome = (t.find j).isSome := by
  by_cases hj : j = k
  · subst hj
    cases h : t.find j with
    | some a => rw [find_modify_self hf h]; rfl
    | none =>
      cases h' : (t.modify j f hf).find j with
      | none => rfl
      | some b =>
        obtain ⟨a, ha, rfl⟩ := (mem_modify hf).mp (mem_of_find h')
        have hk := key_of_find h'
        split at hk
        · next he => simpa [he] using List.find?_eq_none.mp h a ha
        · next he => exact absurd hk he
  · rw [find_modify_of_ne hf hj]

section Sum

variable [AddCommMonoid M] {v : α → M}

theorem sum_modify_list {l : List α} (hl : (l.map key).Nodup) (ha : a ∈ l) :
    ((l.map fun b => if key b = key a then f b else b).map v).sum + v a =
      (l.map v).sum + v (f a) := by
  induction l with
  | nil => cases ha
  | cons b l ih =>
    obtain ⟨hb, hl'⟩ := List.nodup_cons.mp hl
    simp only [List.map_cons, List.sum_cons]
    by_cases he : key b = key a
    · obtain rfl := List.inj_on_of_nodup_map hl ha List.mem_cons_self he.symm
      have hrest : (l.map fun b => if key b = key a then f b else b) = l := by
        refine (List.map_congr_left fun c hc => if_neg fun hca => ?_).trans l.map_id
        exact hb (List.mem_map.mpr ⟨c, hc, hca⟩)
      rw [if_pos rfl, hrest, add_right_comm, add_comm (v (f a)), add_right_comm, add_comm (v a)]
    · have ha' : a ∈ l := (List.mem_cons.mp ha).resolve_left fun h => he (by rw [h])
      rw [if_neg he, add_assoc, ih hl' ha', add_assoc]

/-- A sum changes by the change of the row found. -/
theorem sum_modify (h : t.find k = some a) :
    (t.modify k f hf).sum v + v a = t.sum v + v (f a) := by
  obtain rfl := key_of_find h
  exact sum_modify_list t.nodup (mem_of_find h)

theorem sum_modify_of_eq (h : ∀ a, v (f a) = v a) : (t.modify k f hf).sum v = t.sum v := by
  unfold sum modify
  rw [List.map_map]
  congr 1
  refine List.map_congr_left fun a _ => ?_
  simp only [Function.comp_apply]
  split
  · exact h a
  · rfl

theorem sum_erase_list {l : List α} (hl : (l.map key).Nodup) (ha : a ∈ l) :
    ((l.filter fun b => key b ≠ key a).map v).sum + v a = (l.map v).sum := by
  induction l with
  | nil => cases ha
  | cons b l ih =>
    obtain ⟨hb, hl'⟩ := List.nodup_cons.mp hl
    by_cases he : key b = key a
    · obtain rfl := List.inj_on_of_nodup_map hl ha List.mem_cons_self he.symm
      have hrest : (l.filter fun b => key b ≠ key a) = l := by
        refine List.filter_eq_self.mpr fun c hc => ?_
        exact decide_eq_true fun hca => hb (List.mem_map.mpr ⟨c, hc, hca⟩)
      rw [List.filter_cons_of_neg (by simp), hrest, List.map_cons, List.sum_cons, add_comm]
    · have ha' : a ∈ l := (List.mem_cons.mp ha).resolve_left fun h => he (by rw [h])
      rw [List.filter_cons_of_pos (by simpa using he), List.map_cons, List.sum_cons, add_assoc,
        ih hl' ha', List.map_cons, List.sum_cons]

/-- Erasing a row takes its share out of a sum. -/
theorem sum_erase (h : t.find k = some a) : (t.erase k).sum v + v a = t.sum v := by
  obtain rfl := key_of_find h
  exact sum_erase_list t.nodup (mem_of_find h)

end Sum

omit [DecidableEq κ] in
/-- A row has at most the sum. -/
theorem le_sum {v : α → ℕ} (ha : a ∈ t.rows) : v a ≤ t.sum v :=
  List.single_le_sum (fun _ _ => Nat.zero_le _) _ (List.mem_map.mpr ⟨a, ha, rfl⟩)

/-- Two rows with different keys together have at most the sum. -/
theorem add_le_sum {v : α → ℕ} {b : α} (ha : a ∈ t.rows) (hb : b ∈ t.rows) (hne : key a ≠ key b) :
    v a + v b ≤ t.sum v := by
  rw [← sum_erase (v := v) (find_self hb)]
  exact Nat.add_le_add_right (le_sum (mem_erase.mpr ⟨ha, hne⟩)) _

end Table

/-- A table that numbers its rows; `next` is above every number in use. -/
structure AutoTable {α : Type} (key : α → ℕ) extends Table key where
  next : ℕ
  lt : ∀ a ∈ rows, key a < next

namespace AutoTable

variable {α M : Type} {key : α → ℕ}

def modify (t : AutoTable key) (k : ℕ) (f : α → α) (hf : ∀ a, key (f a) = key a) :
    AutoTable key where
  toTable := t.toTable.modify k f hf
  next := t.next
  lt := by
    intro b hb
    obtain ⟨a, ha, rfl⟩ := (Table.mem_modify hf).mp hb
    split
    · rw [hf]; exact t.lt a ha
    · exact t.lt a ha

def erase (t : AutoTable key) (k : ℕ) : AutoTable key where
  toTable := t.toTable.erase k
  next := t.next
  lt := fun a ha => t.lt a (Table.mem_erase.mp ha).1

/-- Put a new row in front, under the next number. -/
def insert (t : AutoTable key) (mk : ℕ → α) (h : ∀ n, key (mk n) = n) : AutoTable key where
  rows := mk t.next :: t.rows
  nodup := by
    refine List.nodup_cons.mpr ⟨fun hmem => ?_, t.nodup⟩
    obtain ⟨a, ha, hk⟩ := List.mem_map.mp hmem
    exact absurd (t.lt a ha) (by rw [hk, h]; exact lt_irrefl _)
  next := t.next + 1
  lt := by
    intro a ha
    rcases List.mem_cons.mp ha with rfl | ha
    · rw [h]; exact Nat.lt_succ_self _
    · exact (t.lt a ha).trans (Nat.lt_succ_self _)

variable {t : AutoTable key} {mk : ℕ → α} {h : ∀ n, key (mk n) = n}

theorem mem_modify {k : ℕ} {f : α → α} (hf : ∀ a, key (f a) = key a) {b : α} :
    b ∈ (t.modify k f hf).rows ↔ ∃ a ∈ t.rows, b = if key a = k then f a else a :=
  Table.mem_modify hf

theorem mem_erase {k : ℕ} {a : α} : a ∈ (t.erase k).rows ↔ a ∈ t.rows ∧ key a ≠ k :=
  Table.mem_erase

theorem mem_insert {a : α} : a ∈ (t.insert mk h).rows ↔ a = mk t.next ∨ a ∈ t.rows :=
  List.mem_cons

theorem sum_modify [AddCommMonoid M] {v : α → M} {k : ℕ} {f : α → α} {a : α}
    (hf : ∀ a, key (f a) = key a) (h : t.find k = some a) :
    (t.modify k f hf).sum v + v a = t.sum v + v (f a) :=
  Table.sum_modify hf h

theorem sum_erase [AddCommMonoid M] {v : α → M} {k : ℕ} {a : α} (h : t.find k = some a) :
    (t.erase k).sum v + v a = t.sum v :=
  Table.sum_erase h

@[simp] theorem sum_insert [AddCommMonoid M] {v : α → M} :
    (t.insert mk h).sum v = v (mk t.next) + t.sum v := by
  simp [Table.sum, insert]

end AutoTable
