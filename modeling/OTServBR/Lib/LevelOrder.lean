import OTServBR.Lib.RoseTree

/-! # Forests level by level

The nodes of a forest in three orders: depth first, level by level, and as they
leave a queue that takes the children of every node that leaves it. The last
two are the same, and all of them have the same nodes.
-/

namespace LevelOrder

variable {α : Type} (c : α → Bool)

/-- The children of a node whose label may have some. -/
def kids (t : RoseTree α) : List (RoseTree α) := if c t.label then t.children else []

variable {c}

theorem sum_size_kids_lt (t : RoseTree α) : ((kids c t).map RoseTree.size).sum < t.size := by
  obtain ⟨a, l⟩ := t
  rw [RoseTree.size_node, kids]
  split
  · exact Nat.lt_succ_self _
  · exact Nat.succ_pos _

theorem sum_size_flatMap_kids (l : List (RoseTree α)) :
    ((l.flatMap (kids c)).map RoseTree.size).sum + l.length ≤ (l.map RoseTree.size).sum := by
  induction l with
  | nil => simp
  | cons t l ih =>
    have hlt := sum_size_kids_lt (c := c) t
    simp only [List.flatMap_cons, List.map_append, List.sum_append, List.length_cons, List.map_cons,
      List.sum_cons]
    omega

variable (c)

/-- The nodes as they leave a queue. -/
def queueOrder : List (RoseTree α) → List (RoseTree α)
  | [] => []
  | t :: queue => t :: queueOrder (queue ++ kids c t)
termination_by queue => (queue.map RoseTree.size).sum
decreasing_by
  have hlt := sum_size_kids_lt (c := c) t
  simp only [List.map_append, List.sum_append, List.map_cons, List.sum_cons]
  omega

/-- The levels of a forest, from the roots down. -/
def levels : List (RoseTree α) → List (List (RoseTree α))
  | [] => []
  | t :: l => (t :: l) :: levels ((t :: l).flatMap (kids c))
termination_by l => (l.map RoseTree.size).sum
decreasing_by
  have hle := sum_size_flatMap_kids (c := c) (t :: l)
  rw [List.length_cons] at hle
  omega

mutual

/-- The nodes under a node, each in front of those under it. -/
def below : RoseTree α → List (RoseTree α)
  | .node a l => if c a then nodes l else []

/-- The nodes of a forest, each in front of those under it. -/
def nodes : List (RoseTree α) → List (RoseTree α)
  | [] => []
  | t :: l => t :: (below t ++ nodes l)

end

variable {c}

theorem below_eq (t : RoseTree α) : below c t = nodes c (kids c t) := by
  obtain ⟨a, l⟩ := t
  rw [below, kids, RoseTree.label_node, RoseTree.children_node]
  split
  · rfl
  · rw [nodes]

theorem nodes_append (l l' : List (RoseTree α)) : nodes c (l ++ l') = nodes c l ++ nodes c l' := by
  induction l with
  | nil => rw [nodes, List.nil_append, List.nil_append]
  | cons t l ih => rw [List.cons_append, nodes, nodes, ih, List.cons_append, List.append_assoc]

/-- What is in front of the queue leaves it before the children that come in behind. -/
theorem queueOrder_append (l queue : List (RoseTree α)) :
    queueOrder c (l ++ queue) = l ++ queueOrder c (queue ++ l.flatMap (kids c)) := by
  induction l generalizing queue with
  | nil => rw [List.flatMap_nil, List.append_nil, List.nil_append, List.nil_append]
  | cons t l ih =>
    rw [List.cons_append, queueOrder, List.append_assoc, ih, List.flatMap_cons, List.cons_append,
      List.append_assoc]

/-- A queue works level by level. -/
theorem queueOrder_eq (l : List (RoseTree α)) : queueOrder c l = (levels c l).flatten := by
  fun_induction levels c l with
  | case1 => rw [queueOrder, List.flatten_nil]
  | case2 t l ih =>
    have happend := queueOrder_append (c := c) (t :: l) []
    rw [List.append_nil, List.nil_append] at happend
    rw [happend, ih, List.flatten_cons]

/-- Every node leaves the queue once. -/
theorem queueOrder_perm (l : List (RoseTree α)) : (queueOrder c l).Perm (nodes c l) := by
  fun_induction queueOrder c l with
  | case1 => rw [nodes]
  | case2 t queue ih =>
    rw [nodes, below_eq]
    rw [nodes_append] at ih
    exact (ih.trans List.perm_append_comm).cons t

end LevelOrder
