import Mathlib.Data.Nat.Bitwise
import OTServBR.Map.Path

/-! # What a path is made of

Every node but the start was admitted at a place next to its parent, and costs
more than it. The steps from the start to a node are therefore steps between
admitted places, which go where the directions say unless they cross the edge of
the map.
-/

namespace OTServBR

/-- Move along directions, and note every position on the way. -/
def replay (pos : Position) : List Direction → List Position
  | [] => []
  | d :: dirList => getNextPosition d pos :: replay (getNextPosition d pos) dirList

/-- The position where a list of directions ends. -/
def goal (pos : Position) (dirList : List Direction) : Position :=
  dirList.foldl (fun pos d => getNextPosition d pos) pos

theorem replay_concat (pos : Position) (dirList : List Direction) (d : Direction) :
    replay pos (dirList ++ [d]) = replay pos dirList ++ [getNextPosition d (goal pos dirList)] := by
  induction dirList generalizing pos with
  | nil => rfl
  | cons e dirList ih =>
    rw [List.cons_append, replay, ih]
    rfl

theorem goal_concat (pos : Position) (dirList : List Direction) (d : Direction) :
    goal pos (dirList ++ [d]) = getNextPosition d (goal pos dirList) := by
  rw [goal, List.foldl_append]
  rfl

/-! ## Offsets -/

/-- An offset in both coordinates. -/
def Diagonal (d : ℤ × ℤ) : Prop := d.1 ≠ 0 ∧ d.2 ≠ 0

instance : DecidablePred Diagonal := fun _ => inferInstanceAs (Decidable (_ ∧ _))

theorem ofInt_add (u : UInt16) (k : ℤ) : UInt16.ofInt (u.toNat + k) = u + UInt16.ofInt k := by
  rw [UInt16.ofInt_add, Position.ofInt_toNat]

/-- The direction of an offset leads there. -/
theorem direction?_of_offset {p q : Position} {d : ℤ × ℤ} (hd : d ∈ allNeighbors)
    (hq : q = p.shift d) (hx : (q.x.toNat : ℤ) = p.x.toNat + d.1)
    (hy : (q.y.toNat : ℤ) = p.y.toNat + d.2) :
    ∃ direction, direction? (p.x.toNat - q.x.toNat) (p.y.toNat - q.y.toNat) = some direction ∧
      getNextPosition direction p = q ∧ (direction.isDiagonal ↔ Diagonal d) := by
  have hdx : (p.x.toNat : ℤ) - q.x.toNat = -d.1 := by omega
  have hdy : (p.y.toNat : ℤ) - q.y.toNat = -d.2 := by omega
  rw [hdx, hdy, hq, Position.shift, ofInt_add, ofInt_add]
  simp only [allNeighbors, List.mem_cons, List.not_mem_nil, or_false] at hd
  have hzero : UInt16.ofInt 0 = 0 := rfl
  rcases hd with rfl | rfl | rfl | rfl | rfl | rfl | rfl | rfl
  · exact ⟨.WEST, rfl, by simp [getNextPosition, UInt16.sub_eq_add_neg, hzero], by decide⟩
  · exact ⟨.SOUTH, rfl, by simp [getNextPosition, hzero], by decide⟩
  · exact ⟨.EAST, rfl, by simp [getNextPosition, hzero], by decide⟩
  · exact ⟨.NORTH, rfl, by simp [getNextPosition, UInt16.sub_eq_add_neg, hzero], by decide⟩
  · exact ⟨.NORTHWEST, rfl, by simp [getNextPosition, UInt16.sub_eq_add_neg], by decide⟩
  · exact ⟨.NORTHEAST, rfl, by simp [getNextPosition, UInt16.sub_eq_add_neg], by decide⟩
  · exact ⟨.SOUTHEAST, rfl, by simp [getNextPosition], by decide⟩
  · exact ⟨.SOUTHWEST, rfl, by simp [getNextPosition, UInt16.sub_eq_add_neg], by decide⟩

theorem key_inj {x y x' y' : UInt16} (h : AStarNodes.key x y = AStarNodes.key x' y') :
    x = x' ∧ y = y' := by
  have hkey : ∀ x y : UInt16, (AStarNodes.key x y).toNat = x.toNat * 2 ^ 16 + y.toNat := by
    intro x y
    have hx := x.toNat_lt
    have hy := y.toNat_lt
    rw [AStarNodes.key, UInt32.toNat_or, UInt32.toNat_shiftLeft, UInt16.toNat_toUInt32,
      UInt16.toNat_toUInt32]
    have hshift : (16 : UInt32).toNat % 32 = 16 := rfl
    rw [hshift, Nat.shiftLeft_eq, Nat.mod_eq_of_lt (by omega), ← Nat.shiftLeft_eq,
      Nat.shiftLeft_add_eq_or_of_lt hy]
  have h' := congrArg UInt32.toNat h
  rw [hkey, hkey] at h'
  have hy := y.toNat_lt
  have hy' := y'.toNat_lt
  constructor
  · apply UInt16.toNat_inj.mp
    omega
  · apply UInt16.toNat_inj.mp
    omega

/-! ## The tree of nodes -/

/-- The position of a node. -/
def Walker.place (w : Walker) (node : AStarNode) : Position :=
  { w.position with x := node.x, y := node.y }

namespace AStarNodes

/-- A cheaper way to a node. -/
def relink (a : AStarNodes) (j : ℕ) (node : AStarNode) : AStarNodes :=
  ({ a with nodes := a.nodes.set j node } : AStarNodes).openNode j

/-- A new node. -/
def create (a : AStarNodes) (node : AStarNode) : AStarNodes :=
  { a with
    nodes := a.nodes ++ [node]
    openNodes := Function.update a.openNodes a.nodes.length true
    nodeTable := Function.update a.nodeTable (key node.x node.y) (some a.nodes.length) }

variable {a : AStarNodes} {i j : ℕ} {node : AStarNode}

@[simp] theorem nodes_openNode : (a.openNode i).nodes = a.nodes := by
  unfold openNode
  split <;> rfl

@[simp] theorem nodeTable_openNode : (a.openNode i).nodeTable = a.nodeTable := by
  unfold openNode
  split <;> rfl

@[simp] theorem nodes_relink : (a.relink j node).nodes = a.nodes.set j node := nodes_openNode

@[simp] theorem nodeTable_relink : (a.relink j node).nodeTable = a.nodeTable := nodeTable_openNode

@[simp] theorem nodes_create : (a.create node).nodes = a.nodes ++ [node] := rfl

theorem getNodeByPosition_create {x y : UInt16} : (a.create node).getNodeByPosition x y =
    if x = node.x ∧ y = node.y then some a.nodes.length else a.getNodeByPosition x y := by
  unfold getNodeByPosition create
  dsimp only
  rw [Function.update_apply]
  refine if_congr ⟨fun h => key_inj h, ?_⟩ rfl rfl
  rintro ⟨rfl, rfl⟩
  rfl

theorem getElem?_create : (a.create node).nodes[i]? =
    if i = a.nodes.length then some node else a.nodes[i]? := by
  rw [nodes_create]
  split
  · next h =>
    subst h
    exact List.getElem?_concat_length
  · next h =>
    rcases Nat.lt_or_gt_of_ne h with hlt | hgt
    · exact List.getElem?_append_left hlt
    · rw [List.getElem?_eq_none (by rw [List.length_append, List.length_singleton]; omega),
        List.getElem?_eq_none hgt.le]

theorem getElem?_relink {old : AStarNode} (hold : a.nodes[j]? = some old) :
    (a.relink j node).nodes[i]? = if i = j then some node else a.nodes[i]? := by
  obtain ⟨hlt, -⟩ := List.getElem?_eq_some_iff.mp hold
  rw [nodes_relink]
  split
  · next h =>
    subst h
    exact List.getElem?_set_self hlt
  · next h => exact List.getElem?_set_ne (Ne.symm h)

@[simp] theorem openNodes_relink {j i : ℕ} {node : AStarNode} :
    (a.relink j node).openNodes i = (a.openNodes i || i == j) := by
  unfold relink openNode
  dsimp only
  split
  · next h =>
    by_cases hij : i = j
    · rw [hij, h, Bool.true_or]
    · rw [beq_false_of_ne hij, Bool.or_false]
  · dsimp only
    rw [Function.update_apply]
    split
    · next hij => rw [hij, beq_self_eq_true, Bool.or_true]
    · next hij => rw [beq_false_of_ne hij, Bool.or_false]

@[simp] theorem openNodes_create {i : ℕ} {node : AStarNode} :
    (a.create node).openNodes i = (a.openNodes i || i == a.nodes.length) := by
  unfold create
  dsimp only
  rw [Function.update_apply]
  split
  · next hij => rw [hij, beq_self_eq_true, Bool.or_true]
  · next hij => rw [beq_false_of_ne hij, Bool.or_false]

end AStarNodes

section Tree
variable {w : Walker} {pathCondition : PathCondition} {fpp : FindPathParams}

/-- A position that the search may go to. -/
def Enters (w : Walker) (pathCondition : PathCondition) (fpp : FindPathParams) (pos : Position) :
    Prop :=
  inSearchRange w pathCondition fpp pos ∧ (w.canWalkTo pos).isSome

/-- A node next to its parent `p` and dearer than it. -/
structure Link (w : Walker) (fpp : FindPathParams) (p : ℕ) (parent node : AStarNode) : Prop where
  f_lt : parent.f < node.f
  offset : ∃ d ∈ allNeighbors, w.place node = (w.place parent).shift d ∧
    (fpp.allowDiagonal = false → p ≠ 0 → ¬Diagonal d)

/-- The nodes form a tree of steps from the start. -/
structure SearchTree (w : Walker) (pathCondition : PathCondition) (fpp : FindPathParams)
    (a : AStarNodes) : Prop where
  start : a.nodes[0]? = some { x := w.position.x, y := w.position.y }
  parent : ∀ {i node}, a.nodes[i]? = some node → i ≠ 0 → ∃ p parent,
    node.parent = some p ∧ a.nodes[p]? = some parent ∧ Link w fpp p parent node
  enters : ∀ {i node}, a.nodes[i]? = some node → i ≠ 0 →
    Enters w pathCondition fpp (w.place node)
  table : ∀ {x y i}, a.getNodeByPosition x y = some i →
    ∃ node, a.nodes[i]? = some node ∧ node.x = x ∧ node.y = y

theorem SearchTree.ne_zero {a : AStarNodes} (ha : SearchTree w pathCondition fpp a) {i : ℕ}
    {node : AStarNode} (hi : a.nodes[i]? = some node) (hf : 0 < node.f) : i ≠ 0 := by
  rintro rfl
  rw [Option.some.inj (hi.symm.trans ha.start)] at hf
  exact Nat.not_lt_zero _ hf

theorem searchTree_start :
    SearchTree w pathCondition fpp (AStarNodes.start w.position.x w.position.y) := by
  have hzero : ∀ {i node}, (AStarNodes.start w.position.x w.position.y).nodes[i]? = some node →
      i = 0 := by
    intro i node hi
    obtain ⟨hlt, -⟩ := List.getElem?_eq_some_iff.mp hi
    exact Nat.lt_one_iff.mp hlt
  constructor
  · rfl
  · intro i node hi hne
    exact absurd (hzero hi) hne
  · intro i node hi hne
    exact absurd (hzero hi) hne
  · intro x y i hi
    unfold AStarNodes.getNodeByPosition AStarNodes.start at hi
    dsimp only at hi
    rw [Function.update_apply] at hi
    split at hi
    · next hkey =>
      obtain ⟨rfl, rfl⟩ := key_inj hkey
      rw [← Option.some.inj hi]
      exact ⟨_, rfl, rfl, rfl⟩
    · cases hi

/-! ## One neighbour -/

/-- The offsets from a node; without diagonals only the start has diagonal ones. -/
theorem mem_neighbors {parent : Option AStarNode} {node : AStarNode} {d : ℤ × ℤ}
    (hd : d ∈ neighbors fpp parent node) :
    d ∈ allNeighbors ∧ (fpp.allowDiagonal = false → parent.isSome → ¬Diagonal d) := by
  have hall : ∀ direction : Direction, ∀ d ∈ direction.dirNeighbors, d ∈ allNeighbors := by
    intro direction
    cases direction <;> decide
  have hstraight : ∀ direction : Direction, direction.isDiagonal = false →
      ∀ d ∈ direction.dirNeighbors.take 3, ¬Diagonal d := by
    intro direction
    cases direction <;> decide
  unfold neighbors at hd
  split at hd
  · exact ⟨hd, nofun⟩
  · dsimp only at hd
    refine ⟨hall _ d (List.mem_of_mem_take hd), fun hdiagonal _ => ?_⟩
    rw [hdiagonal] at hd
    refine hstraight _ ?_ d hd
    simp only [Bool.not_false, Bool.true_or, if_true]
    split_ifs <;> rfl

theorem Walker.getTile_of_canWalkTo {pos : Position} {t : ℕ} (h : w.canWalkTo pos = some t) :
    w.getTile pos = some t := by
  unfold canWalkTo at h
  dsimp only at h
  split_ifs at h with hblocked hfree hother
  · exact h
  · split at h
    · cases h
    · next tile htile =>
      split at h
      · rw [htile, h]
      · cases h
  · exact h

/-- What a way over a node to a position costs. -/
def newf (w : Walker) (node : AStarNode) (pos : Position) : ℕ :=
  node.f + AStarNodes.getMapWalkCost node pos + w.getTileWalkCost (w.getTile pos)

theorem f_lt_newf {node : AStarNode} {pos : Position} : node.f < newf w node pos := by
  have hcost : 0 < AStarNodes.getMapWalkCost node pos := by
    unfold AStarNodes.getMapWalkCost
    split <;> decide
  unfold newf
  omega

/-- All that a visit of a neighbour can do. -/
inductive Visited (w : Walker) (pathCondition : PathCondition) (fpp : FindPathParams) (n : ℕ)
    (node : AStarNode) (pos : Position) (a : AStarNodes) : AStarNodes → Prop
  | out (hpos : ¬Enters w pathCondition fpp pos) : Visited w pathCondition fpp n node pos a a
  | cheap (j : ℕ) (old : AStarNode) (hpos : w.place old = pos) (hold : a.nodes[j]? = some old)
      (hf : old.f ≤ newf w node pos) : Visited w pathCondition fpp n node pos a a
  | relink (j : ℕ) (old : AStarNode) (hpos : w.place old = pos) (hold : a.nodes[j]? = some old)
      (hf : newf w node pos < old.f) : Visited w pathCondition fpp n node pos a
        (a.relink j { old with f := newf w node pos, parent := some n })
  | create (hpos : Enters w pathCondition fpp pos)
      (hnew : a.getNodeByPosition pos.x pos.y = none) (hroom : a.nodes.length < MAX_NODES) :
      Visited w pathCondition fpp n node pos a
        (a.create { parent := some n, f := newf w node pos, x := pos.x, y := pos.y })

theorem visited_of_visitNeighbor {n : ℕ} {node : AStarNode} {a a' : AStarNodes} {d : ℤ × ℤ}
    (ha : SearchTree w pathCondition fpp a)
    (h : visitNeighbor w pathCondition fpp n node a d = some a') :
    Visited w pathCondition fpp n node ((w.place node).shift d) a a' := by
  unfold visitNeighbor at h
  dsimp only at h
  split at h
  · next hrange =>
    rw [← Option.some.inj h]
    apply Visited.out
    rintro ⟨hin, -⟩
    rw [Bool.not_eq_true'] at hrange
    exact Bool.false_ne_true (hrange.symm.trans hin)
  · next hrange =>
    rw [Bool.not_eq_true', Bool.not_eq_false] at hrange
    split at h
    · next j hj =>
      obtain ⟨old, hold, hx, hy⟩ := ha.table hj
      have hpos : w.place old = (w.place node).shift d := by
        rw [Walker.place, hx, hy]
        rfl
      rw [hold] at h
      dsimp only at h
      split at h
      · next hf =>
        rw [← Option.some.inj h]
        exact Visited.cheap j old hpos hold hf
      · next hf =>
        rw [← Option.some.inj h]
        exact Visited.relink j old hpos hold (Nat.lt_of_not_le hf)
    · next hnew =>
      split at h
      · next hwalk =>
        rw [← Option.some.inj h]
        apply Visited.out
        rintro ⟨-, hsome⟩
        have hwalk' : w.canWalkTo ((w.place node).shift d) = none := hwalk
        rw [hwalk'] at hsome
        cases hsome
      · next tile hwalk =>
        unfold AStarNodes.createOpenNode at h
        dsimp only at h
        split at h
        · cases h
        · next hroom =>
          rw [← Option.some.inj h, ← Walker.getTile_of_canWalkTo hwalk]
          exact Visited.create ⟨hrange, Option.isSome_of_eq_some hwalk⟩ hnew
            (Nat.lt_of_not_le hroom)

section Visited
variable {n i : ℕ} {node child : AStarNode} {d : ℤ × ℤ} {a a' : AStarNodes}

/-- A child of the node that is expanded, at the offset that was visited. -/
structure Fresh (w : Walker) (pathCondition : PathCondition) (fpp : FindPathParams) (n : ℕ)
    (node : AStarNode) (d : ℤ × ℤ) (child : AStarNode) : Prop where
  parent : child.parent = some n
  place : w.place child = (w.place node).shift d
  f_eq : child.f = newf w node (w.place child)
  enters : Enters w pathCondition fpp (w.place child)

/-- A visit changes at most one node, which is open afterwards. -/
theorem Visited.old_or_fresh (ha : SearchTree w pathCondition fpp a)
    (h : Visited w pathCondition fpp n node ((w.place node).shift d) a a')
    (hi : a'.nodes[i]? = some child) :
    a.nodes[i]? = some child ∧ (a'.openNodes i = true → a.openNodes i = true) ∨
      Fresh w pathCondition fpp n node d child ∧ a'.openNodes i = true := by
  cases h with
  | out _ => exact Or.inl ⟨hi, id⟩
  | cheap _ _ _ _ _ => exact Or.inl ⟨hi, id⟩
  | relink j old hpos hold hf =>
    rw [AStarNodes.getElem?_relink hold] at hi
    rw [AStarNodes.openNodes_relink]
    split at hi
    · next hij =>
      obtain rfl := Option.some.inj hi
      have henters := ha.enters hold (ha.ne_zero hold (Nat.zero_lt_of_lt hf))
      refine Or.inr ⟨⟨rfl, hpos, ?_, henters⟩, ?_⟩
      · rw [← hpos]
        rfl
      · rw [hij, beq_self_eq_true, Bool.or_true]
    · next hij =>
      rw [beq_false_of_ne hij, Bool.or_false]
      exact Or.inl ⟨hi, id⟩
  | create hpos hnew hroom =>
    rw [AStarNodes.getElem?_create] at hi
    rw [AStarNodes.openNodes_create]
    split at hi
    · next hij =>
      obtain rfl := Option.some.inj hi
      exact Or.inr ⟨⟨rfl, rfl, rfl, hpos⟩, by rw [hij, beq_self_eq_true, Bool.or_true]⟩
    · next hij =>
      rw [beq_false_of_ne hij, Bool.or_false]
      exact Or.inl ⟨hi, id⟩

/-- A node stays as it is unless the way over the visiting node is cheaper. -/
theorem Visited.kept (h : Visited w pathCondition fpp n node ((w.place node).shift d) a a')
    (hi : a.nodes[i]? = some child) (hf : child.f ≤ newf w node (w.place child)) :
    a'.nodes[i]? = some child := by
  cases h with
  | out _ => exact hi
  | cheap _ _ _ _ _ => exact hi
  | relink j old hpos hold hlt =>
    rw [AStarNodes.getElem?_relink hold]
    split
    · next hij =>
      subst hij
      rw [Option.some.inj (hi.symm.trans hold), hpos] at hf
      exact absurd hf (not_le.mpr hlt)
    · exact hi
  | create hpos hnew hroom =>
    obtain ⟨hlt, -⟩ := List.getElem?_eq_some_iff.mp hi
    rw [AStarNodes.getElem?_create, if_neg hlt.ne, hi]

/-- A node stays at its position and gets no dearer. -/
theorem Visited.le (h : Visited w pathCondition fpp n node ((w.place node).shift d) a a')
    (hi : a.nodes[i]? = some child) :
    ∃ child', a'.nodes[i]? = some child' ∧ w.place child' = w.place child ∧
      child'.f ≤ child.f := by
  cases h with
  | out _ => exact ⟨child, hi, rfl, le_rfl⟩
  | cheap _ _ _ _ _ => exact ⟨child, hi, rfl, le_rfl⟩
  | relink j old hpos hold hf =>
    rw [AStarNodes.getElem?_relink hold]
    split
    · next hij =>
      subst hij
      rw [Option.some.inj (hi.symm.trans hold)]
      exact ⟨_, rfl, rfl, hf.le⟩
    · exact ⟨child, hi, rfl, le_rfl⟩
  | create hpos hnew hroom =>
    obtain ⟨hlt, -⟩ := List.getElem?_eq_some_iff.mp hi
    exact ⟨child, by rw [AStarNodes.getElem?_create, if_neg hlt.ne, hi], rfl, le_rfl⟩

theorem Visited.table (h : Visited w pathCondition fpp n node ((w.place node).shift d) a a')
    {x y : UInt16} (hi : a'.getNodeByPosition x y = some i) :
    a.getNodeByPosition x y = some i ∨
      ∃ child, a'.nodes[i]? = some child ∧ child.x = x ∧ child.y = y := by
  cases h with
  | out _ => exact Or.inl hi
  | cheap _ _ _ _ _ => exact Or.inl hi
  | relink j old hpos hold hf =>
    unfold AStarNodes.getNodeByPosition at hi
    rw [AStarNodes.nodeTable_relink] at hi
    exact Or.inl hi
  | create hpos hnew hroom =>
    rw [AStarNodes.getNodeByPosition_create] at hi
    split at hi
    · next hxy =>
      obtain rfl := Option.some.inj hi
      exact Or.inr ⟨_, AStarNodes.getElem?_create.trans (if_pos rfl), hxy.1.symm, hxy.2.symm⟩
    · exact Or.inl hi

end Visited

theorem SearchTree.of_visited {n : ℕ} {node : AStarNode} {a a' : AStarNodes} {d : ℤ × ℤ}
    (ha : SearchTree w pathCondition fpp a) (hn : a.nodes[n]? = some node)
    (hd : d ∈ allNeighbors) (hstraight : fpp.allowDiagonal = false → n ≠ 0 → ¬Diagonal d)
    (h : Visited w pathCondition fpp n node ((w.place node).shift d) a a') :
    SearchTree w pathCondition fpp a' ∧ a'.nodes[n]? = some node := by
  have hn' := h.kept hn f_lt_newf.le
  refine ⟨?_, hn'⟩
  constructor
  · exact h.kept ha.start (Nat.zero_le _)
  · intro i child hi hne
    obtain ⟨hold, -⟩ | ⟨hfresh, -⟩ := h.old_or_fresh ha hi
    · obtain ⟨p, parent, hp, hparent, hf, hoffset⟩ := ha.parent hold hne
      obtain ⟨parent', hparent', hplace, hle⟩ := h.le hparent
      refine ⟨p, parent', hp, hparent', hle.trans_lt hf, ?_⟩
      rw [hplace]
      exact hoffset
    · refine ⟨n, node, hfresh.parent, hn', ?_, d, hd, hfresh.place, hstraight⟩
      rw [hfresh.f_eq]
      exact f_lt_newf
  · intro i child hi hne
    obtain ⟨hold, -⟩ | ⟨hfresh, -⟩ := h.old_or_fresh ha hi
    · exact ha.enters hold hne
    · exact hfresh.enters
  · intro x y i hi
    obtain hi | hi := h.table hi
    · obtain ⟨child, hchild, hx, hy⟩ := ha.table hi
      obtain ⟨child', hchild', hplace, -⟩ := h.le hchild
      rw [Walker.place, Walker.place, Position.mk.injEq] at hplace
      exact ⟨child', hchild', hplace.1.trans hx, hplace.2.1.trans hy⟩
    · exact hi

/-- Nodes stay at their positions. -/
def Keeps (w : Walker) (a a' : AStarNodes) : Prop :=
  ∀ {i : ℕ} {node}, a.nodes[i]? = some node →
    ∃ node', a'.nodes[i]? = some node' ∧ w.place node' = w.place node

/-- What the visits of single neighbours preserve, the loop over them preserves. -/
theorem visitNeighbors_invariant {P : AStarNodes → Prop} {found : Bool} {n : ℕ}
    {node : AStarNode} {offsets : List (ℤ × ℤ)} {a a' : AStarNodes}
    (hoffsets : ∀ d ∈ offsets,
      d ∈ allNeighbors ∧ (fpp.allowDiagonal = false → n ≠ 0 → ¬Diagonal d))
    (hstep : ∀ a a' d, d ∈ offsets → SearchTree w pathCondition fpp a → a.nodes[n]? = some node →
      Visited w pathCondition fpp n node ((w.place node).shift d) a a' → P a → P a')
    (ha : SearchTree w pathCondition fpp a) (hn : a.nodes[n]? = some node) (hP : P a)
    (h : visitNeighbors w pathCondition fpp found n node offsets a = some a') :
    SearchTree w pathCondition fpp a' ∧ P a' := by
  induction offsets generalizing a with
  | nil =>
    rw [← Option.some.inj h]
    exact ⟨ha, hP⟩
  | cons d offsets ih =>
    rw [visitNeighbors] at h
    split at h
    · next b hb =>
      have hvisited := visited_of_visitNeighbor ha hb
      obtain ⟨hd, hstraight⟩ := hoffsets d List.mem_cons_self
      obtain ⟨hb', hn'⟩ := ha.of_visited hn hd hstraight hvisited
      refine ih (fun d hd => hoffsets d (List.mem_cons_of_mem _ hd)) ?_ hb' hn' ?_ h
      · exact fun a a' d hd => hstep a a' d (List.mem_cons_of_mem _ hd)
      · exact hstep a b d List.mem_cons_self ha hn hvisited hP
    · split at h
      · rw [← Option.some.inj h]
        exact ⟨ha, hP⟩
      · cases h

/-! ## The search -/

/-- The loop went on after it expanded the best node. -/
theorem searchStep_next {s s' : SearchState}
    (h : searchStep w pathCondition fpp s = .next s') :
    ∃ n node nodes, s.nodes.getBestNode = some n ∧ s.nodes.nodes[n]? = some node ∧
      visitNeighbors w pathCondition fpp s'.found.isSome n node
        (neighbors fpp (node.parent.bind fun p => s.nodes.nodes[p]?) node) s.nodes = some nodes ∧
      s'.nodes = nodes.closeNode n ∧
      (s'.found = s.found ∨ s'.found = some (n, w.place node) ∧
        (pathCondition.call w.position (w.place node) fpp s.bestMatch).1) := by
  unfold searchStep at h
  split at h
  · split at h
    · split at h <;> cases h
    · next n hn =>
      split at h
      · cases h
      · next node hnode =>
        unfold searchNode at h
        dsimp only at h
        split at h
        · cases h
        · split at h
          · cases h
          · next nodes hnodes =>
            cases h
            refine ⟨n, node, nodes, hn, hnode, hnodes, rfl, ?_⟩
            dsimp only
            split
            · next hheld => exact Or.inr ⟨rfl, hheld⟩
            · exact Or.inl rfl
  · cases h

theorem searchStep_stop {s s' : SearchState}
    (h : searchStep w pathCondition fpp s = .stop s') :
    s'.nodes = s.nodes ∧ (s'.found = s.found ∨ ∃ n node, s.nodes.getBestNode = some n ∧
      s.nodes.nodes[n]? = some node ∧ s'.found = some (n, w.place node) ∧
        (pathCondition.call w.position (w.place node) fpp s.bestMatch).1) := by
  unfold searchStep at h
  split at h
  · split at h
    · split at h
      · cases h
        exact ⟨rfl, Or.inl rfl⟩
      · cases h
    · next n hn =>
      split at h
      · cases h
      · next node hnode =>
        unfold searchNode at h
        dsimp only at h
        split at h
        · next hheld =>
          cases h
          have hheld' : (pathCondition.call w.position (w.place node) fpp s.bestMatch).1 :=
            (Bool.and_eq_true_iff.mp hheld).1
          refine ⟨rfl, Or.inr ⟨n, node, hn, hnode, ?_, hheld'⟩⟩
          exact if_pos hheld'
        · split at h <;> cases h
  · cases h
    exact ⟨rfl, Or.inl rfl⟩

/-- The position that was found satisfies the condition and belongs to its node. -/
structure SearchInv (w : Walker) (pathCondition : PathCondition) (fpp : FindPathParams)
    (s : SearchState) : Prop where
  tree : SearchTree w pathCondition fpp s.nodes
  found : ∀ {n endPos}, s.found = some (n, endPos) →
    (∃ node, s.nodes.nodes[n]? = some node ∧ w.place node = endPos) ∧
      ∃ bestMatch, (pathCondition.call w.position endPos fpp bestMatch).1

theorem offsets_of_neighbors {a : AStarNodes} {n : ℕ} {node : AStarNode}
    (ha : SearchTree w pathCondition fpp a) (hn : a.nodes[n]? = some node) :
    ∀ d ∈ neighbors fpp (node.parent.bind fun p => a.nodes[p]?) node,
      d ∈ allNeighbors ∧ (fpp.allowDiagonal = false → n ≠ 0 → ¬Diagonal d) := by
  intro d hd
  obtain ⟨hmem, hstraight⟩ := mem_neighbors hd
  refine ⟨hmem, fun hdiagonal hne => hstraight hdiagonal ?_⟩
  obtain ⟨p, parent, hp, hparent, -⟩ := ha.parent hn hne
  rw [hp, Option.bind_some, hparent]
  rfl

theorem SearchInv.next {s s' : SearchState} (hs : SearchInv w pathCondition fpp s)
    (h : searchStep w pathCondition fpp s = .next s') : SearchInv w pathCondition fpp s' := by
  obtain ⟨n, node, nodes, -, hnode, hnodes, hclose, hfound⟩ := searchStep_next h
  obtain ⟨htree, hkeeps⟩ := visitNeighbors_invariant (P := fun a => Keeps w s.nodes a)
    (offsets_of_neighbors hs.tree hnode) (fun a a' d _ _ _ hvisited hkeeps i child hi => by
      obtain ⟨child₁, h₁, hplace₁⟩ := hkeeps hi
      obtain ⟨child₂, h₂, hplace₂, -⟩ := hvisited.le h₁
      exact ⟨child₂, h₂, hplace₂.trans hplace₁⟩) hs.tree hnode (fun hi => ⟨_, hi, rfl⟩) hnodes
  have hnodes' : s'.nodes.nodes = nodes.nodes := by
    rw [hclose]
    rfl
  constructor
  · rw [hclose]
    exact ⟨htree.start, htree.parent, htree.enters, htree.table⟩
  · intro k endPos hk
    rw [hnodes']
    obtain hfound | ⟨hfound, hheld⟩ := hfound
    · rw [hfound] at hk
      obtain ⟨⟨old, hold, hplace⟩, hheld⟩ := hs.found hk
      obtain ⟨new, hnew, hplace'⟩ := hkeeps hold
      exact ⟨⟨new, hnew, hplace'.trans hplace⟩, hheld⟩
    · rw [hfound, Option.some.injEq, Prod.mk.injEq] at hk
      obtain ⟨rfl, rfl⟩ := hk
      obtain ⟨new, hnew, hplace⟩ := hkeeps hnode
      exact ⟨⟨new, hnew, hplace⟩, _, hheld⟩

theorem SearchInv.stop {s s' : SearchState} (hs : SearchInv w pathCondition fpp s)
    (h : searchStep w pathCondition fpp s = .stop s') : SearchInv w pathCondition fpp s' := by
  obtain ⟨hnodes, hfound⟩ := searchStep_stop h
  constructor
  · rw [hnodes]
    exact hs.tree
  · intro k endPos hk
    rw [hnodes]
    obtain hfound | ⟨n, node, -, hnode, hfound, hheld⟩ := hfound
    · rw [hfound] at hk
      exact hs.found hk
    · rw [hfound, Option.some.injEq, Prod.mk.injEq] at hk
      obtain ⟨rfl, rfl⟩ := hk
      exact ⟨⟨node, hnode, rfl⟩, _, hheld⟩

/-- What every round preserves holds where the search stops. -/
theorem search_invariant {P Q : SearchState → Prop}
    (hnext : ∀ s s', P s → searchStep w pathCondition fpp s = .next s' → P s')
    (hstop : ∀ s s', P s → searchStep w pathCondition fpp s = .stop s' → Q s')
    {fuel : ℕ} {s s' : SearchState} (hs : P s)
    (h : search w pathCondition fpp fuel s = some (.stop s')) : Q s' := by
  induction fuel generalizing s with
  | zero => cases h
  | succ fuel ih =>
    rw [search] at h
    split at h
    · next t ht => exact ih (hnext s t hs ht) h
    · exact hstop s s' hs (Option.some.inj h)

/-! ## The way back -/

/-- A position that the search may be at. -/
def Place (w : Walker) (pathCondition : PathCondition) (fpp : FindPathParams) (pos : Position) :
    Prop :=
  pos = w.position ∨ Enters w pathCondition fpp pos

/-- No step between places crosses the edge of the map. -/
def Seamless (w : Walker) (pathCondition : PathCondition) (fpp : FindPathParams) : Prop :=
  ∀ p q, Place w pathCondition fpp p → Place w pathCondition fpp q → ∀ d ∈ allNeighbors,
    q = p.shift d → (q.x.toNat : ℤ) = p.x.toNat + d.1 ∧ (q.y.toNat : ℤ) = p.y.toNat + d.2

/-- No step to a position that can be entered crosses the edge of the map. -/
def Inland (w : Walker) (pathCondition : PathCondition) (fpp : FindPathParams) (pos : Position) :
    Prop :=
  ∀ d ∈ allNeighbors, Enters w pathCondition fpp (pos.shift d) →
    ((pos.shift d).x.toNat : ℤ) = pos.x.toNat + d.1 ∧
      ((pos.shift d).y.toNat : ℤ) = pos.y.toNat + d.2

theorem Seamless.inland (h : Seamless w pathCondition fpp) {pos : Position}
    (hpos : Place w pathCondition fpp pos) : Inland w pathCondition fpp pos :=
  fun d hd henters => h pos _ hpos (Or.inr henters) d hd rfl

/-- Directions that lead from the start over admitted positions. -/
structure Leads (w : Walker) (pathCondition : PathCondition) (fpp : FindPathParams)
    (dirList : List Direction) (pos : Position) : Prop where
  goal_eq : goal w.position dirList = pos
  enters : ∀ pos ∈ replay w.position dirList, Enters w pathCondition fpp pos
  straight : fpp.allowDiagonal = false → ∀ d ∈ dirList, d.isDiagonal = false

theorem leads_nil : Leads w pathCondition fpp [] w.position :=
  ⟨rfl, nofun, nofun⟩

theorem Leads.concat {dirList : List Direction} {p q : Position} {d : Direction}
    (h : Leads w pathCondition fpp dirList p) (hd : getNextPosition d p = q)
    (hq : Enters w pathCondition fpp q)
    (hstraight : fpp.allowDiagonal = false → d.isDiagonal = false) :
    Leads w pathCondition fpp (dirList ++ [d]) q := by
  constructor
  · rw [goal_concat, h.goal_eq, hd]
  · intro pos hpos
    rw [replay_concat, h.goal_eq, hd] at hpos
    rcases List.mem_append.mp hpos with hpos | hpos
    · exact h.enters pos hpos
    · rw [List.mem_singleton.mp hpos]
      exact hq
  · intro hdiagonal e he
    rcases List.mem_append.mp he with he | he
    · exact h.straight hdiagonal e he
    · rw [List.mem_singleton.mp he]
      exact hstraight hdiagonal

theorem SearchTree.place_zero {a : AStarNodes} (ha : SearchTree w pathCondition fpp a)
    {node : AStarNode} (h : a.nodes[0]? = some node) : w.place node = w.position := by
  rw [← Option.some.inj (ha.start.symm.trans h)]
  rfl

theorem SearchTree.place {a : AStarNodes} (ha : SearchTree w pathCondition fpp a) {i : ℕ}
    {node : AStarNode} (h : a.nodes[i]? = some node) :
    Place w pathCondition fpp (w.place node) := by
  by_cases hi : i = 0
  · subst hi
    exact Or.inl (ha.place_zero h)
  · exact Or.inr (ha.enters h hi)

/-- The nodes that a path leads over. -/
inductive OnPath (a : AStarNodes) (n : ℕ) : ℕ → Prop
  | self : OnPath a n n
  | parent {i p : ℕ} {node : AStarNode} (hi : OnPath a n i) (hnode : a.nodes[i]? = some node)
      (hp : node.parent = some p) : OnPath a n p

/-- The first step on the way to a node is no diagonal one. -/
def FirstStraight (w : Walker) (a : AStarNodes) (n : ℕ) : Prop :=
  ∀ i node, OnPath a n i → a.nodes[i]? = some node → node.parent = some 0 →
    ∀ d ∈ allNeighbors, w.place node = w.position.shift d → ¬Diagonal d

@[simp] theorem traceBack_none (nodes : List AStarNode) (fuel : ℕ) (x y : UInt16)
    (dirList : List Direction) : traceBack nodes fuel x y none dirList = dirList := by
  cases fuel <;> rfl

theorem traceBack_succ {nodes : List AStarNode} {fuel p : ℕ} {x y : UInt16} {parent : AStarNode}
    (hp : nodes[p]? = some parent) (dirList : List Direction) :
    traceBack nodes (fuel + 1) x y (some p) dirList =
      traceBack nodes fuel parent.x parent.y parent.parent
        ((direction? (parent.x.toNat - x.toNat) (parent.y.toNat - y.toNat)).toList ++ dirList) := by
  rw [traceBack, hp]

/-- A node, its parent, and the direction from one to the other. -/
structure ComesFrom (w : Walker) (fpp : FindPathParams) (a : AStarNodes) (i p : ℕ)
    (child parent : AStarNode) (d : ℤ × ℤ) (direction : Direction) : Prop where
  ne_zero : i ≠ 0
  node : a.nodes[i]? = some child
  parent_eq : child.parent = some p
  parent_node : a.nodes[p]? = some parent
  mem : d ∈ allNeighbors
  place : w.place child = (w.place parent).shift d
  straight : fpp.allowDiagonal = false → p ≠ 0 → ¬Diagonal d
  next : getNextPosition direction (w.place parent) = w.place child
  diagonal : direction.isDiagonal ↔ Diagonal d

/-- What holds at the start, and passes on from parents, holds for the directions that the parents
of a node give. -/
theorem SearchTree.traceBack_induction {a : AStarNodes} (ha : SearchTree w pathCondition fpp a)
    (hinland : ∀ {i p : ℕ} {node parent : AStarNode}, a.nodes[i]? = some node →
      node.parent = some p → a.nodes[p]? = some parent →
        Inland w pathCondition fpp (w.place parent))
    {P : ℕ → List Direction → Prop} (hstart : P 0 [])
    (hstep : ∀ {i p child parent d direction dirs},
      ComesFrom w fpp a i p child parent d direction → P p dirs → P i (dirs ++ [direction]))
    {fuel i : ℕ} {node : AStarNode} (hi : a.nodes[i]? = some node) (hfuel : node.f ≤ fuel)
    (dirList : List Direction) :
    ∃ dirs, traceBack a.nodes fuel node.x node.y node.parent dirList = dirs ++ dirList ∧
      P i dirs := by
  by_cases hzero : i = 0
  · subst hzero
    have hnode := Option.some.inj (hi.symm.trans ha.start)
    refine ⟨[], ?_, hstart⟩
    rw [hnode, traceBack_none, List.nil_append]
  obtain ⟨p, parent, hp, hparent, hlink⟩ := ha.parent hi hzero
  obtain ⟨d, hd, hplace, hdiagonal⟩ := hlink.offset
  have hf := hlink.f_lt
  obtain ⟨fuel, rfl⟩ : ∃ k, fuel = k + 1 := ⟨fuel - 1, by omega⟩
  have henters := ha.enters hi hzero
  rw [hplace] at henters
  obtain ⟨hx, hy⟩ := hinland hi hp hparent d hd henters
  rw [← hplace] at hx hy
  obtain ⟨direction, hdirection, hnext, hiff⟩ := direction?_of_offset hd hplace hx hy
  have hle : parent.f ≤ fuel := by omega
  -- the way to the parent, by induction on what it costs
  obtain ⟨dirs, hdirs, hP⟩ :=
    ha.traceBack_induction hinland hstart hstep hparent hle (direction :: dirList)
  refine ⟨dirs ++ [direction], ?_, hstep ⟨hzero, hi, hp, hparent, hd, hplace, hdiagonal, hnext,
    hiff⟩ hP⟩
  have hdirection' : direction? (parent.x.toNat - node.x.toNat) (parent.y.toNat - node.y.toNat) =
      some direction := hdirection
  rw [hp, traceBack_succ hparent, hdirection', List.append_assoc]
  exact hdirs
termination_by fuel

/-- The parents of a node give directions from the start to it. -/
theorem SearchTree.traceBack_leads {a : AStarNodes} (ha : SearchTree w pathCondition fpp a)
    (hinland : ∀ {i p : ℕ} {node parent : AStarNode}, a.nodes[i]? = some node →
      node.parent = some p → a.nodes[p]? = some parent →
        Inland w pathCondition fpp (w.place parent)) {n : ℕ}
    (hfirst : fpp.allowDiagonal = false → FirstStraight w a n) {fuel : ℕ} {node : AStarNode}
    (hn : a.nodes[n]? = some node) (hfuel : node.f ≤ fuel) (dirList : List Direction) :
    ∃ dirs, traceBack a.nodes fuel node.x node.y node.parent dirList = dirs ++ dirList ∧
      Leads w pathCondition fpp dirs (w.place node) := by
  obtain ⟨dirs, hdirs, hP⟩ := ha.traceBack_induction hinland
    (P := fun i dirs => ∀ node, a.nodes[i]? = some node → OnPath a n i →
      Leads w pathCondition fpp dirs (w.place node))
    (fun node hzero _ => by
      rw [ha.place_zero hzero]
      exact leads_nil)
    (fun {i p node parent d direction dirs} h hP child hi hon => by
      obtain rfl := Option.some.inj (h.node.symm.trans hi)
      refine (hP _ h.parent_node (hon.parent hi h.parent_eq)).concat h.next
        (ha.enters hi h.ne_zero) fun hallow => ?_
      rw [← Bool.not_eq_true, h.diagonal]
      by_cases hpzero : p = 0
      · subst hpzero
        have hplace := h.place
        rw [ha.place_zero h.parent_node] at hplace
        exact hfirst hallow i node hon hi h.parent_eq d h.mem hplace
      · exact h.straight hallow hpzero) hn hfuel dirList
  exact ⟨dirs, hdirs, hP node hn .self⟩

theorem searchInv_start : SearchInv w pathCondition fpp
    { nodes := AStarNodes.start w.position.x w.position.y } :=
  ⟨searchTree_start, nofun⟩

/-- What is returned leads from the start to a position for which the condition held. -/
theorem leads_of_getPathMatching (hseam : Seamless w pathCondition fpp)
    (hfirst : fpp.allowDiagonal = false → ∀ {fuel s n endPos},
      search w pathCondition fpp fuel
        { nodes := AStarNodes.start w.position.x w.position.y } = some (.stop s) →
      s.found = some (n, endPos) → FirstStraight w s.nodes n)
    {fuel : ℕ} {dirList : List Direction}
    (h : getPathMatching w [] pathCondition fpp fuel = some dirList) :
    ∃ endPos, Leads w pathCondition fpp dirList endPos ∧
      ∃ bestMatch, (pathCondition.call w.position endPos fpp bestMatch).1 := by
  unfold getPathMatching at h
  split at h
  · next s hs =>
    have hinv := search_invariant (fun _ _ => SearchInv.next) (fun _ _ => SearchInv.stop)
      searchInv_start hs
    split at h
    · cases h
    · next n endPos hfound =>
      obtain ⟨⟨node, hnode, hplace⟩, hheld⟩ := hinv.found hfound
      rw [hnode] at h
      dsimp only at h
      obtain ⟨dirs, hdirs, hleads⟩ := hinv.tree.traceBack_leads
        (fun _ _ hparent => hseam.inland (hinv.tree.place hparent))
        (fun hallow => hfirst hallow hs hfound) hnode le_rfl []
      have hx : endPos.x = node.x := by rw [← hplace]; rfl
      have hy : endPos.y = node.y := by rw [← hplace]; rfl
      rw [hx, hy, hdirs, List.append_nil, Option.some.injEq] at h
      rw [← h]
      exact ⟨endPos, hplace ▸ hleads, hheld⟩
  · cases h

end Tree

end OTServBR
