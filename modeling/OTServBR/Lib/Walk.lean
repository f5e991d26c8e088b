import Mathlib.Data.List.Nodup
import Mathlib.Data.List.Perm.Subperm

/-! # Walking a table of rows with parents

Rows point to the row they lie in. A walk takes a key from a queue, lists the
rows that lie in it and queues those of them that are opened. Where the keys
are distinct and the first key is none of them, a walk lists every row at most
once, and it ends within one step more than there are rows.
-/

namespace Walk

variable {α κ : Type} [DecidableEq κ] (key : α → κ) (parent : α → Option κ)

/-- The rows that lie in a row. -/
def children (t : List α) (k : κ) : List α := t.filter fun a => parent a = some k

/-- The rows in the order in which a breadth-first search lists them. -/
def walk (opens : α → Bool) (t : List α) : ℕ → List κ → List α
  | 0, _ => []
  | _ + 1, [] => []
  | n + 1, k :: queue =>
    children parent t k ++
      walk opens t n (queue ++ ((children parent t k).filter opens).map key)

/-- The rows that do not lie in a visited row. -/
def unvisited (t : List α) (visited : List κ) : List α :=
  t.filter fun a => ∀ k ∈ visited, parent a ≠ some k

/-- What holds between two steps of a walk: no key is queued twice, and a row is queued only
after the row it lies in was visited. -/
structure Ready (t : List α) (visited queue : List κ) : Prop where
  nodup : (visited ++ queue).Nodup
  fresh : ∀ a ∈ unvisited parent t visited, key a ∉ visited ++ queue

variable {key parent} {opens : α → Bool} {t : List α} {visited queue : List κ} {k : κ}

theorem mem_unvisited {a : α} :
    a ∈ unvisited parent t visited ↔ a ∈ t ∧ ∀ k ∈ visited, parent a ≠ some k := by
  simp [unvisited]

theorem mem_children {a : α} : a ∈ children parent t k ↔ a ∈ t ∧ parent a = some k := by
  simp [children]

theorem children_eq (h : k ∉ visited) :
    children parent t k = children parent (unvisited parent t visited) k := by
  unfold children unvisited
  rw [List.filter_filter]
  refine List.filter_congr fun a _ => ?_
  by_cases ha : parent a = some k
  · have hv : ∀ j ∈ visited, ¬ k = j := by
      rintro j hj rfl
      exact h hj
    simpa [ha] using hv
  · simp [ha]

/-- Visiting a key splits off its children. -/
theorem perm_unvisited (h : k ∉ visited) :
    (children parent t k ++ unvisited parent t (k :: visited)).Perm
      (unvisited parent t visited) := by
  have hrest : unvisited parent t (k :: visited) =
      (unvisited parent t visited).filter fun a => !decide (parent a = some k) := by
    unfold unvisited
    rw [List.filter_filter]
    refine List.filter_congr fun a _ => ?_
    simp
  rw [children_eq h, hrest]
  exact List.filter_append_perm _ _

theorem Ready.start {root : κ} (h : ∀ a ∈ t, key a ≠ root) : Ready key parent t [] [root] := by
  constructor
  · simp
  · intro a ha
    simpa using h a (mem_unvisited.mp ha).1

theorem Ready.notMem (h : Ready key parent t visited (k :: queue)) : k ∉ visited := by
  intro hk
  exact (List.nodup_append.mp h.nodup).2.2 k hk k (by simp) rfl

variable (opens) in
theorem Ready.step (ht : (t.map key).Nodup) (h : Ready key parent t visited (k :: queue)) :
    Ready key parent t (k :: visited)
      (queue ++ ((children parent t k).filter opens).map key) := by
  have hopen : ∀ a ∈ (children parent t k).filter opens, a ∈ unvisited parent t visited := by
    intro a ha
    have hc := List.mem_of_mem_filter ha
    rw [children_eq h.notMem] at hc
    exact (mem_children.mp hc).1
  have hperm : (k :: visited ++ (queue ++ ((children parent t k).filter opens).map key)).Perm
      (visited ++ k :: queue ++ ((children parent t k).filter opens).map key) := by
    rw [← List.append_assoc]
    exact List.Perm.append_right _ (List.perm_middle.symm)
  constructor
  · refine hperm.nodup_iff.mpr (List.nodup_append.mpr ⟨h.nodup, ?_, ?_⟩)
    · exact ht.sublist ((List.filter_sublist.trans List.filter_sublist).map key)
    · rintro j hj _ hj' rfl
      obtain ⟨a, ha, rfl⟩ := List.mem_map.mp hj'
      exact h.fresh a (hopen a ha) hj
  · intro a ha hmem
    obtain ⟨hat, hav⟩ := mem_unvisited.mp ha
    have hau : a ∈ unvisited parent t visited :=
      mem_unvisited.mpr ⟨hat, fun j hj => hav j (List.mem_cons_of_mem _ hj)⟩
    rcases List.mem_append.mp (hperm.subset hmem) with hold | hnew
    · exact h.fresh a hau hold
    · obtain ⟨b, hb, hba⟩ := List.mem_map.mp hnew
      have hbc := mem_children.mp (List.mem_of_mem_filter hb)
      obtain rfl := List.inj_on_of_nodup_map ht hbc.1 hat hba
      exact hav k (by simp) hbc.2

variable (parent opens) in
/-- A walk lists rows that do not lie in a visited row, each at most once. -/
theorem walk_subperm (ht : (t.map key).Nodup) (n : ℕ) :
    ∀ visited queue, Ready key parent t visited queue →
      (walk key parent opens t n queue).Subperm (unvisited parent t visited) := by
  induction n with
  | zero => exact fun _ _ _ => List.nil_subperm
  | succ n ih =>
    intro visited queue h
    cases queue with
    | nil => exact List.nil_subperm
    | cons k queue =>
      have hrest := ih _ _ (h.step opens ht)
      exact ((List.subperm_append_left _).mpr hrest).trans (perm_unvisited h.notMem).subperm

variable {root : κ}

theorem walk_nodup (ht : (t.map key).Nodup) (hroot : ∀ a ∈ t, key a ≠ root) (n : ℕ) :
    ((walk key parent opens t n [root]).map key).Nodup := by
  obtain ⟨l, hp, hs⟩ :=
    walk_subperm parent opens ht n [] [root] (Ready.start hroot)
  exact (hp.map key).nodup_iff.mp (ht.sublist ((hs.trans List.filter_sublist).map key))

theorem mem_of_mem_walk {n : ℕ} {a : α} (h : a ∈ walk key parent opens t n queue) : a ∈ t := by
  induction n generalizing queue with
  | zero => cases h
  | succ n ih =>
    cases queue with
    | nil => cases h
    | cons k queue =>
      rcases List.mem_append.mp h with h | h
      · exact (mem_children.mp h).1
      · exact ih h

/-- Each step takes a key from the queue or a row from those not visited yet, so more steps
than there are of both change nothing. -/
theorem walk_succ (ht : (t.map key).Nodup) (n : ℕ) :
    ∀ visited queue, Ready key parent t visited queue →
      queue.length + (unvisited parent t visited).length ≤ n →
      walk key parent opens t (n + 1) queue = walk key parent opens t n queue := by
  induction n with
  | zero =>
    intro visited queue _ hn
    have hq : queue = [] := List.length_eq_zero_iff.mp (by omega)
    subst hq
    rfl
  | succ n ih =>
    intro visited queue h hn
    cases queue with
    | nil => rfl
    | cons k queue =>
      have hlen : _ = (unvisited parent t visited).length := (perm_unvisited h.notMem).length_eq
      have hopen := List.length_filter_le opens (children parent t k)
      have hstep := ih (k :: visited) _ (h.step opens ht) (by
        simp only [List.length_append, List.length_cons, List.length_map] at hn hlen ⊢
        omega)
      unfold walk
      rw [hstep]

/-- One step more than there are rows is enough for a walk from one key. -/
theorem walk_eq_of_le (ht : (t.map key).Nodup) (hroot : ∀ a ∈ t, key a ≠ root) {n : ℕ}
    (hn : t.length + 1 ≤ n) :
    walk key parent opens t n [root] = walk key parent opens t (t.length + 1) [root] := by
  obtain ⟨d, rfl⟩ := Nat.exists_eq_add_of_le hn
  induction d with
  | zero => rfl
  | succ d ih =>
    rw [← ih (Nat.le_add_right _ _)]
    refine walk_succ ht (t.length + 1 + d) [] [root] (Ready.start hroot) ?_
    have hle := List.length_filter_le (fun a => decide (∀ k ∈ ([] : List κ), parent a ≠ some k)) t
    simp only [unvisited, List.length_singleton]
    omega

end Walk
