import Mathlib

/-! # Rose trees

Finite trees whose nodes carry a label and an ordered list of children, with
the map over labels, the size, the height, and properties that hold at every
node.
-/

/-- A tree of any finite branching. -/
inductive RoseTree (α : Type)
  | node (label : α) (children : List (RoseTree α))

namespace RoseTree

variable {α β : Type}

def label : RoseTree α → α
  | node a _ => a

def children : RoseTree α → List (RoseTree α)
  | node _ l => l

@[simp] theorem label_node (a : α) (l : List (RoseTree α)) : (node a l).label = a := rfl

@[simp] theorem children_node (a : α) (l : List (RoseTree α)) : (node a l).children = l := rfl

/-- Induction over the nodes, children first. -/
@[elab_as_elim, induction_eliminator]
theorem induct {motive : RoseTree α → Prop}
    (node : ∀ a l, (∀ t ∈ l, motive t) → motive (.node a l)) (t : RoseTree α) : motive t :=
  go t
where
  go : ∀ t, motive t
    | .node a l => node a l (goList l)
  goList : ∀ l : List (RoseTree α), ∀ t ∈ l, motive t
    | [], _, h => absurd h (by simp)
    | t' :: l, t, h => (List.mem_cons.mp h).elim (fun e => e ▸ go t') (goList l t)

/-! ## Folds -/

mutual

def map (f : α → β) : RoseTree α → RoseTree β
  | node a l => node (f a) (mapList f l)

def mapList (f : α → β) : List (RoseTree α) → List (RoseTree β)
  | [] => []
  | t :: l => map f t :: mapList f l

end

mutual

/-- The number of nodes. -/
def size : RoseTree α → ℕ
  | node _ l => sizeList l + 1

def sizeList : List (RoseTree α) → ℕ
  | [] => 0
  | t :: l => size t + sizeList l

end

theorem mapList_eq (f : α → β) (l : List (RoseTree α)) : mapList f l = l.map (map f) := by
  induction l with
  | nil => rfl
  | cons t l ih => rw [mapList, ih, List.map_cons]

@[simp] theorem map_node (f : α → β) (a : α) (l : List (RoseTree α)) :
    (node a l).map f = node (f a) (l.map (map f)) := by
  rw [map, mapList_eq]

theorem sizeList_eq (l : List (RoseTree α)) : sizeList l = (l.map size).sum := by
  induction l with
  | nil => rfl
  | cons t l ih => rw [sizeList, ih, List.map_cons, List.sum_cons]

@[simp] theorem size_node (a : α) (l : List (RoseTree α)) :
    (node a l).size = (l.map size).sum + 1 := by
  rw [size, sizeList_eq]

theorem size_pos (t : RoseTree α) : 0 < t.size := by
  cases t with
  | node a l => rw [size_node]; omega

theorem size_le_of_mem {t : RoseTree α} {l : List (RoseTree α)} (h : t ∈ l) :
    t.size ≤ (l.map size).sum :=
  List.le_sum_of_mem (List.mem_map_of_mem h)

/-- A child is smaller than its parent. -/
theorem size_lt_of_mem {a : α} {t : RoseTree α} {l : List (RoseTree α)} (h : t ∈ l) :
    t.size < (node a l).size := by
  have := size_le_of_mem h
  rw [size_node]
  omega

/-! ## Properties of all nodes -/

/-- A property holds at every node, of its label and its children. -/
inductive All (P : α → List (RoseTree α) → Prop) : RoseTree α → Prop
  | node {a : α} {l : List (RoseTree α)} : P a l → (∀ t ∈ l, All P t) → All P (node a l)

theorem All.imp {P Q : α → List (RoseTree α) → Prop} (h : ∀ a l, P a l → Q a l) {t : RoseTree α}
    (ht : t.All P) : t.All Q := by
  induction t with
  | node a l ih =>
    obtain ⟨hp, hl⟩ := ht
    exact .node (h a l hp) fun t hm => ih t hm (hl t hm)

theorem all_node_iff {P : α → List (RoseTree α) → Prop} {a : α} {l : List (RoseTree α)} :
    (node a l).All P ↔ P a l ∧ ∀ t ∈ l, t.All P := by
  constructor
  · rintro ⟨hp, hl⟩
    exact ⟨hp, hl⟩
  · rintro ⟨hp, hl⟩
    exact .node hp hl

mutual

/-- Decide a property node by node. -/
def decideAll (P : α → List (RoseTree α) → Prop) [∀ a l, Decidable (P a l)] : RoseTree α → Bool
  | node a l => decide (P a l) && decideAllList P l

def decideAllList (P : α → List (RoseTree α) → Prop) [∀ a l, Decidable (P a l)] :
    List (RoseTree α) → Bool
  | [] => true
  | t :: l => decideAll P t && decideAllList P l

end

section Decide
variable {P : α → List (RoseTree α) → Prop} [∀ a l, Decidable (P a l)]

theorem decideAllList_eq (l : List (RoseTree α)) : decideAllList P l = l.all (decideAll P) := by
  induction l with
  | nil => rfl
  | cons t l ih => rw [decideAllList, ih, List.all_cons]

theorem decideAll_iff (t : RoseTree α) : decideAll P t ↔ t.All P := by
  induction t with
  | node a l ih =>
    rw [decideAll, decideAllList_eq, Bool.and_eq_true, decide_eq_true_iff, List.all_eq_true,
      all_node_iff]
    exact and_congr_right fun _ => forall₂_congr fun t hm => ih t hm

instance (t : RoseTree α) : Decidable (t.All P) := decidable_of_iff _ (decideAll_iff t)

end Decide

/-! ## Places -/

/-- The node at a place, which says which child to take from the root down. -/
def get? : List ℕ → RoseTree α → Option (RoseTree α)
  | [], t => some t
  | i :: p, node _ l => l[i]?.bind (get? p)

/-- Change the node at a place, if there is one. -/
def modify : List ℕ → (RoseTree α → RoseTree α) → RoseTree α → RoseTree α
  | [], f, t => f t
  | i :: p, f, node a l => node a (l.modify i (modify p f))

section Places
variable {p q : List ℕ} {f g : RoseTree α → RoseTree α} {t n : RoseTree α}

theorem get?_modify (p : List ℕ) (f : RoseTree α → RoseTree α) (t : RoseTree α) :
    get? p (modify p f t) = (get? p t).map f := by
  induction p generalizing t with
  | nil => rfl
  | cons i p ih =>
    cases t with
    | node a l =>
      rw [modify, get?, get?, List.getElem?_modify_eq]
      cases l[i]? with
      | none => rfl
      | some t => exact ih t

theorem get?_append (p q : List ℕ) (t : RoseTree α) :
    get? (p ++ q) t = (get? p t).bind (get? q) := by
  induction p generalizing t with
  | nil => rfl
  | cons i p ih =>
    cases t with
    | node a l =>
      rw [List.cons_append, get?, get?]
      cases l[i]? with
      | none => rfl
      | some t => exact ih t

theorem modify_modify (p : List ℕ) (f g : RoseTree α → RoseTree α) (t : RoseTree α) :
    modify p f (modify p g t) = modify p (f ∘ g) t := by
  induction p generalizing t with
  | nil => rfl
  | cons i p ih =>
    cases t with
    | node a l =>
      have hcomp : modify p f ∘ modify p g = modify p (f ∘ g) := funext ih
      rw [modify, modify, modify, List.modify_modify_eq, hcomp]

theorem modify_id (p : List ℕ) (t : RoseTree α) : modify p (fun t => t) t = t := by
  induction p generalizing t with
  | nil => rfl
  | cons i p ih =>
    cases t with
    | node a l =>
      have hid : modify p (fun t => t) = (id : RoseTree α → RoseTree α) := funext ih
      rw [modify, hid, List.modify_id]

theorem modify_append (p q : List ℕ) (f : RoseTree α → RoseTree α) (t : RoseTree α) :
    modify (p ++ q) f t = modify p (modify q f) t := by
  induction p generalizing t with
  | nil => rfl
  | cons i p ih =>
    cases t with
    | node a l => rw [List.cons_append, modify, modify, funext ih]

/-- Only what is done to the node at the place matters. -/
theorem modify_congr (h : get? p t = some n) (hfg : f n = g n) : modify p f t = modify p g t := by
  induction p generalizing t with
  | nil =>
    obtain rfl := Option.some.inj h
    exact hfg
  | cons i p ih =>
    cases t with
    | node a l =>
      rw [modify, modify]
      congr 1
      refine List.ext_getElem? fun j => ?_
      rw [List.getElem?_modify, List.getElem?_modify]
      split_ifs with hij
      · subst hij
        rw [get?] at h
        cases hl : l[i]? with
        | none => rfl
        | some t =>
          rw [hl] at h
          exact congrArg some (ih h)
      · rfl

end Places

end RoseTree
