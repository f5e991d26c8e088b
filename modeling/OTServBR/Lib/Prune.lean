import OTServBR.Lib.RoseTree

/-! # Cutting branches off rose trees

The labels of a tree, and what is left of them when every branch whose root is
chosen is cut off. A branch that is cut takes the chosen nodes inside it along,
so cutting twice is the same as cutting at either choice.
-/

namespace RoseTree

variable {α β : Type}

mutual

/-- The labels, those of a node before those of its children. -/
def labels : RoseTree α → List α
  | node a l => a :: labelsList l

def labelsList : List (RoseTree α) → List α
  | [] => []
  | t :: l => labels t ++ labelsList l

end

mutual

/-- What is left of a tree without the branches at the chosen labels. -/
def prune (p : α → Bool) : RoseTree α → Option (RoseTree α)
  | node a l => if p a then none else some (node a (pruneList p l))

def pruneList (p : α → Bool) : List (RoseTree α) → List (RoseTree α)
  | [] => []
  | t :: l => (prune p t).toList ++ pruneList p l

end

mutual

/-- The branches that pruning cuts off, outermost ones only. -/
def cut (p : α → Bool) : RoseTree α → List (RoseTree α)
  | node a l => if p a then [node a l] else cutList p l

def cutList (p : α → Bool) : List (RoseTree α) → List (RoseTree α)
  | [] => []
  | t :: l => cut p t ++ cutList p l

end

variable {p q : α → Bool} {t : RoseTree α} {l : List (RoseTree α)}

theorem labels_node (a : α) : labels (node a l) = a :: labelsList l := rfl

theorem labelsList_cons : labelsList (t :: l) = labels t ++ labelsList l := rfl

theorem prune_node (a : α) : prune p (node a l) = if p a then none else some (node a (pruneList p l)) :=
  rfl

theorem pruneList_cons : pruneList p (t :: l) = (prune p t).toList ++ pruneList p l := rfl

theorem cut_node (a : α) : cut p (node a l) = if p a then [node a l] else cutList p l := rfl

theorem cutList_cons : cutList p (t :: l) = cut p t ++ cutList p l := rfl

theorem labelsList_eq : labelsList l = l.flatMap labels := by
  induction l with
  | nil => rfl
  | cons t l ih => rw [labelsList_cons, ih, List.flatMap_cons]

theorem length_labels (t : RoseTree α) : (labels t).length = t.size := by
  induction t with
  | node a l ih =>
    rw [labels_node, size_node, List.length_cons, labelsList_eq, List.length_flatMap]
    congr 2
    exact List.map_congr_left ih

@[simp] theorem labelsList_append {l' : List (RoseTree α)} :
    labelsList (l ++ l') = labelsList l ++ labelsList l' := by
  induction l with
  | nil => rfl
  | cons t l ih => rw [List.cons_append, labelsList_cons, labelsList_cons, ih, List.append_assoc]

@[simp] theorem labelsList_singleton : labelsList [t] = labels t :=
  List.append_nil _

theorem labelsList_map {f : α → β} (h : ∀ t ∈ l, labels (map f t) = (labels t).map f) :
    labelsList (l.map (map f)) = (labelsList l).map f := by
  induction l with
  | nil => rfl
  | cons t l ih =>
    rw [List.map_cons, labelsList_cons, labelsList_cons, List.map_append, h t (by simp),
      ih fun t ht => h t (List.mem_cons_of_mem _ ht)]

@[simp] theorem labels_map (f : α → β) (t : RoseTree α) : labels (map f t) = (labels t).map f := by
  induction t with
  | node a l ih =>
    rw [map_node, labels_node, labels_node, labelsList_map ih]
    rfl

theorem perm_labelsList
    (h : ∀ t ∈ l, (labels t).Perm (labelsList (prune p t).toList ++ labelsList (cut p t))) :
    (labelsList l).Perm (labelsList (pruneList p l) ++ labelsList (cutList p l)) := by
  induction l with
  | nil => exact List.Perm.refl _
  | cons t l ih =>
    rw [labelsList_cons, pruneList_cons, cutList_cons, labelsList_append, labelsList_append]
    refine ((h t (by simp)).append (ih fun t ht => h t (List.mem_cons_of_mem _ ht))).trans ?_
    rw [List.append_assoc, List.append_assoc]
    refine List.Perm.append_left _ ?_
    rw [← List.append_assoc, ← List.append_assoc]
    exact List.Perm.append_right _ List.perm_append_comm

/-- The labels of a tree are those of what is left and those of what is cut off. -/
theorem perm_labels (p : α → Bool) (t : RoseTree α) :
    (labels t).Perm (labelsList (prune p t).toList ++ labelsList (cut p t)) := by
  induction t with
  | node a l ih =>
    rw [prune_node, cut_node]
    split
    · rw [Option.toList_none, labelsList_singleton]
      exact List.Perm.refl _
    · rw [Option.toList_some, labelsList_singleton, labels_node, labels_node, List.cons_append]
      exact (perm_labelsList ih).cons a

theorem pruneList_append {l' : List (RoseTree α)} :
    pruneList p (l ++ l') = pruneList p l ++ pruneList p l' := by
  induction l with
  | nil => rfl
  | cons t l ih => rw [List.cons_append, pruneList_cons, pruneList_cons, ih, List.append_assoc]

theorem pruneList_toList {o : Option (RoseTree α)} :
    pruneList p o.toList = (o.bind (prune p)).toList := by
  cases o with
  | none => rfl
  | some t => simp [pruneList]

theorem pruneList_pruneList
    (h : ∀ t ∈ l, (prune p t).bind (prune q) = prune (fun a => p a || q a) t) :
    pruneList q (pruneList p l) = pruneList (fun a => p a || q a) l := by
  induction l with
  | nil => rfl
  | cons t l ih =>
    rw [pruneList_cons, pruneList_append, pruneList_toList, h t (by simp),
      ih fun t ht => h t (List.mem_cons_of_mem _ ht), ← pruneList]

theorem prune_prune (p q : α → Bool) (t : RoseTree α) :
    (prune p t).bind (prune q) = prune (fun a => p a || q a) t := by
  induction t with
  | node a l ih =>
    rw [prune_node, prune_node]
    by_cases hp : p a
    · simp [hp]
    · by_cases hq : q a
      · simp [hp, hq, prune]
      · simp [hp, hq, prune, pruneList_pruneList ih]

theorem prune_of_none (h : ∀ a, p a = false) (t : RoseTree α) : prune p t = some t := by
  induction t with
  | node a l ih =>
    rw [prune_node, if_neg (by simp [h a])]
    have hl : pruneList p l = l := by
      clear a
      induction l with
      | nil => rfl
      | cons t l ihl =>
        rw [pruneList_cons, ih t (by simp), ihl fun t ht => ih t (List.mem_cons_of_mem _ ht)]
        rfl
    rw [hl]

/-- Where no node that may not have children has any, pruning and maps keep it so. -/
theorem all_prune {leaf : α → Prop} (h : t.All fun a l => leaf a → l = []) :
    ∀ t' ∈ prune p t, t'.All fun a l => leaf a → l = [] := by
  induction t with
  | node a l ih =>
    obtain ⟨ha, hl⟩ := h
    intro t' ht'
    rw [prune_node] at ht'
    split at ht'
    · cases ht'
    · obtain rfl := Option.some.inj ht'
      refine .node (fun hleaf => ?_) ?_
      · rw [ha hleaf]
        rfl
      · clear ha ht'
        induction l with
        | nil => nofun
        | cons t l ihl =>
          intro t' ht'
          rw [pruneList_cons] at ht'
          rcases List.mem_append.mp ht' with ht' | ht'
          · exact ih t (by simp) (hl t (by simp)) t' (Option.mem_toList.mp ht')
          · exact ihl (fun t ht => ih t (List.mem_cons_of_mem _ ht))
              (fun t ht => hl t (List.mem_cons_of_mem _ ht)) t' ht'

theorem all_map {f : α → β} {leaf : α → Prop} {leaf' : β → Prop} (hf : ∀ a, leaf' (f a) → leaf a)
    (h : t.All fun a l => leaf a → l = []) : (map f t).All fun b l => leaf' b → l = [] := by
  induction t with
  | node a l ih =>
    obtain ⟨ha, hl⟩ := h
    rw [map_node]
    refine .node (fun hleaf => ?_) ?_
    · rw [ha (hf a hleaf)]
      rfl
    · intro t' ht'
      obtain ⟨t, ht, rfl⟩ := List.mem_map.mp ht'
      exact ih t ht (hl t ht)

end RoseTree
