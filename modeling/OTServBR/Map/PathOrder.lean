import Mathlib
import OTServBR.Map.PathContract

/-! # The order of the search

Every round closes the cheapest open node. The ways over it are dearer than all
closed nodes, so that these stay as they are, and a round closes one more of at
most `MAX_NODES` nodes.
-/

namespace OTServBR

/-- The search before its first round. -/
def SearchState.start (w : Walker) : SearchState where
  nodes := AStarNodes.start w.position.x w.position.y

/-- The state after a number of rounds, each of which expanded a node and went on. -/
def rounds (w : Walker) (pathCondition : PathCondition) (fpp : FindPathParams) :
    ℕ → SearchState → Option SearchState
  | 0, s => some s
  | k + 1, s =>
    match searchStep w pathCondition fpp s with
    | .next s => rounds w pathCondition fpp k s
    | _ => none

namespace AStarNodes
variable {a : AStarNodes} {i j n : ℕ} {node : AStarNode}

/-- The nodes that are closed. -/
def closed (a : AStarNodes) : Finset ℕ :=
  (Finset.range a.nodes.length).filter fun i => a.openNodes i = false

theorem getNodeByPosition_start {x y x' y' : UInt16} :
    (start x y).getNodeByPosition x' y' = if x' = x ∧ y' = y then some 0 else none := by
  unfold getNodeByPosition start
  dsimp only
  rw [Function.update_apply]
  refine if_congr ⟨fun h => key_inj h, ?_⟩ rfl rfl
  rintro ⟨rfl, rfl⟩
  rfl

theorem mem_closed : i ∈ a.closed ↔ (∃ node, a.nodes[i]? = some node) ∧ a.openNodes i = false := by
  rw [closed, Finset.mem_filter, Finset.mem_range]
  refine and_congr_left fun _ => ⟨fun hi => ⟨_, List.getElem?_eq_getElem hi⟩, ?_⟩
  rintro ⟨node, hi⟩
  exact (List.getElem?_eq_some_iff.mp hi).1

theorem card_closed_le : a.closed.card ≤ a.nodes.length :=
  (Finset.card_filter_le _ _).trans_eq (Finset.card_range _)

/-- When no more nodes are open, there is no best one. -/
theorem getBestNode_of_card_closed (h : a.closed.card = a.nodes.length) : a.getBestNode = none := by
  have hall : a.closed = Finset.range a.nodes.length := by
    refine Finset.eq_of_subset_of_card_le (Finset.filter_subset _ _) ?_
    rw [h, Finset.card_range]
  cases hbest : a.getBestNode with
  | none => rfl
  | some n =>
    rw [getBestNode_eq] at hbest
    obtain ⟨hlt, hopen⟩ := (foldl_better le_rfl).1 n hbest
    have hclosed : n ∈ a.closed := hall ▸ Finset.mem_range.mpr hlt
    rw [(mem_closed.mp hclosed).2] at hopen
    cases hopen

@[simp] theorem nodes_closeNode : (a.closeNode n).nodes = a.nodes := rfl

@[simp] theorem closedNodes_closeNode : (a.closeNode n).closedNodes = a.closedNodes + 1 := rfl

theorem closedNodes_relink (hj : a.openNodes j = true) :
    (a.relink j node).closedNodes = a.closedNodes := by
  unfold relink openNode
  rw [if_pos hj]

/-- To close an open node is to have one closed node more. -/
theorem closed_closeNode (hn : a.nodes[n]? = some node) :
    (a.closeNode n).closed = insert n a.closed := by
  ext i
  rw [Finset.mem_insert, mem_closed, mem_closed, nodes_closeNode, openNodes_closeNode,
    Bool.and_eq_false_iff, bne_eq_false_iff_eq]
  constructor
  · rintro ⟨hi, hopen | rfl⟩
    · exact Or.inr ⟨hi, hopen⟩
    · exact Or.inl rfl
  · rintro (rfl | ⟨hi, hopen⟩)
    · exact ⟨⟨node, hn⟩, Or.inr rfl⟩
    · exact ⟨hi, Or.inl hopen⟩

end AStarNodes

section Order
variable {w : Walker} {pathCondition : PathCondition} {fpp : FindPathParams}

/-! ## One round -/

/-- No closed node is dearer than an open one, and the closed nodes are counted. -/
structure Ordered (w : Walker) (pathCondition : PathCondition) (fpp : FindPathParams)
    (a : AStarNodes) : Prop where
  tree : SearchTree w pathCondition fpp a
  le : ∀ {i j : ℕ} {node other}, a.nodes[i]? = some node → a.openNodes i = false →
    a.nodes[j]? = some other → a.openNodes j = true → node.f ≤ other.f
  room : a.nodes.length ≤ MAX_NODES
  count : a.closedNodes = a.closed.card

/-- What the visits of the neighbours of a best node leave of the nodes `b` before. -/
structure Expanding (b : AStarNodes) (node : AStarNode) (a : AStarNodes) : Prop where
  kept : ∀ {i : ℕ} {child}, b.nodes[i]? = some child → b.openNodes i = false →
    a.nodes[i]? = some child ∧ a.openNodes i = false
  old : ∀ {i : ℕ} {child}, a.nodes[i]? = some child → a.openNodes i = false →
    b.nodes[i]? = some child ∧ b.openNodes i = false
  least : ∀ {i : ℕ} {child}, a.nodes[i]? = some child → a.openNodes i = true → node.f ≤ child.f
  grows : b.nodes.length ≤ a.nodes.length
  room : a.nodes.length ≤ MAX_NODES
  count : a.closedNodes = b.closedNodes

variable {n : ℕ} {node : AStarNode} {d : ℤ × ℤ} {a a' b : AStarNodes}

/-- A node that gets cheaper is open: the closed ones are no dearer than the node that is
expanded. -/
theorem Expanding.open_of_lt (h : Expanding b node a)
    (hle : ∀ {i : ℕ} {child}, b.nodes[i]? = some child → b.openNodes i = false → child.f ≤ node.f)
    {j : ℕ} {old : AStarNode} {pos : Position} (hold : a.nodes[j]? = some old)
    (hlt : newf w node pos < old.f) : a.openNodes j = true := by
  rw [← Bool.not_eq_false]
  intro hclosed
  obtain ⟨hold', hclosed'⟩ := h.old hold hclosed
  have hf := hle hold' hclosed'
  have hnew : node.f < newf w node pos := f_lt_newf
  omega

theorem Expanding.of_visited (h : Expanding b node a)
    (hle : ∀ {i : ℕ} {child}, b.nodes[i]? = some child → b.openNodes i = false → child.f ≤ node.f)
    (ha : SearchTree w pathCondition fpp a)
    (hvisited : Visited w pathCondition fpp n node ((w.place node).shift d) a a') :
    Expanding b node a' := by
  constructor
  · intro i child hi hclosed
    obtain ⟨hi', hclosed'⟩ := h.kept hi hclosed
    have hf := hle hi hclosed
    refine ⟨hvisited.kept hi' (hf.trans f_lt_newf.le), ?_⟩
    cases hvisited with
    | out _ => exact hclosed'
    | cheap _ _ _ _ _ => exact hclosed'
    | relink j old hpos hold hlt =>
      have hopen := h.open_of_lt hle hold hlt
      rw [AStarNodes.openNodes_relink, hclosed', Bool.false_or, beq_eq_false_iff_ne]
      rintro rfl
      cases hclosed'.symm.trans hopen
    | create hpos hnew hroom =>
      obtain ⟨hlt, -⟩ := List.getElem?_eq_some_iff.mp hi'
      rw [AStarNodes.openNodes_create, hclosed', Bool.false_or, beq_eq_false_iff_ne]
      exact hlt.ne
  · intro i child hi hclosed
    obtain ⟨hi', -⟩ | ⟨-, hopen⟩ := hvisited.old_or_fresh ha hi
    · refine h.old hi' ?_
      rw [← Bool.not_eq_true]
      intro hopen
      cases hclosed.symm.trans (hvisited.openNodes hopen)
    · cases hclosed.symm.trans hopen
  · intro i child hi hopen
    obtain ⟨hi', hopen'⟩ | ⟨hfresh, -⟩ := hvisited.old_or_fresh ha hi
    · exact h.least hi' (hopen' hopen)
    · rw [hfresh.f_eq]
      exact f_lt_newf.le
  · cases hvisited with
    | out _ => exact h.grows
    | cheap _ _ _ _ _ => exact h.grows
    | relink j old hpos hold hlt =>
      rw [AStarNodes.nodes_relink, List.length_set]
      exact h.grows
    | create hpos hnew hroom =>
      rw [AStarNodes.nodes_create, List.length_append]
      exact h.grows.trans (Nat.le_add_right _ _)
  · cases hvisited with
    | out _ => exact h.room
    | cheap _ _ _ _ _ => exact h.room
    | relink j old hpos hold hlt =>
      rw [AStarNodes.nodes_relink, List.length_set]
      exact h.room
    | create hpos hnew hroom =>
      rw [AStarNodes.nodes_create, List.length_append, List.length_singleton]
      exact hroom
  · cases hvisited with
    | out _ => exact h.count
    | cheap _ _ _ _ _ => exact h.count
    | relink j old hpos hold hlt =>
      rw [AStarNodes.closedNodes_relink (h.open_of_lt hle hold hlt)]
      exact h.count
    | create hpos hnew hroom => exact h.count

/-- All nodes that are closed after a round were closed before it, except for the one that was
expanded. -/
theorem Expanding.closed_eq (h : Expanding b node a) : a.closed = b.closed := by
  ext i
  rw [AStarNodes.mem_closed, AStarNodes.mem_closed]
  constructor
  · rintro ⟨⟨child, hi⟩, hclosed⟩
    obtain ⟨hi', hclosed'⟩ := h.old hi hclosed
    exact ⟨⟨child, hi'⟩, hclosed'⟩
  · rintro ⟨⟨child, hi⟩, hclosed⟩
    obtain ⟨hi', hclosed'⟩ := h.kept hi hclosed
    exact ⟨⟨child, hi'⟩, hclosed'⟩

theorem Ordered.expanding (hb : Ordered w pathCondition fpp b) (hbest : b.getBestNode = some n)
    (hn : b.nodes[n]? = some node) {found : Bool}
    (h : visitNeighbors w pathCondition fpp found n node
      (neighbors fpp (node.parent.bind fun p => b.nodes[p]?) node) b = some a) :
    SearchTree w pathCondition fpp a ∧ a.nodes[n]? = some node ∧ Expanding b node a := by
  obtain ⟨hopen, hleast⟩ := AStarNodes.getBestNode_spec hbest hn
  have hle : ∀ {i : ℕ} {child}, b.nodes[i]? = some child → b.openNodes i = false →
      child.f ≤ node.f := fun hi hclosed => hb.le hi hclosed hn hopen
  have hoffsets := offsets_of_neighbors hb.tree hn
  refine visitNeighbors_invariant (P := fun a => a.nodes[n]? = some node ∧ Expanding b node a)
    hoffsets (fun a a' d hd ha hn hvisited hP => ?_) hb.tree hn ⟨hn, ?_⟩ h
  · obtain ⟨hmem, hstraight⟩ := hoffsets d hd
    exact ⟨(ha.of_visited hn hmem hstraight hvisited).2, hP.2.of_visited hle ha hvisited⟩
  · exact ⟨fun hi hclosed => ⟨hi, hclosed⟩, fun hi hclosed => ⟨hi, hclosed⟩,
      fun hi hopen => hleast _ _ hopen hi, le_rfl, hb.room, rfl⟩

/-- Nodes that are closed in `a` are closed in `a'` and the same. -/
def Settled (a a' : AStarNodes) : Prop :=
  ∀ {i : ℕ} {node}, a.nodes[i]? = some node → a.openNodes i = false →
    a'.nodes[i]? = some node ∧ a'.openNodes i = false

theorem Ordered.next {s s' : SearchState} (hs : Ordered w pathCondition fpp s.nodes)
    (h : searchStep w pathCondition fpp s = .next s') :
    Ordered w pathCondition fpp s'.nodes ∧ Settled s.nodes s'.nodes ∧
      s'.nodes.closedNodes = s.nodes.closedNodes + 1 := by
  obtain ⟨n, node, nodes, hbest, hnode, hnodes, hclose, -⟩ := searchStep_next h
  obtain ⟨hopen, -⟩ := AStarNodes.getBestNode_spec hbest hnode
  obtain ⟨htree, hnode', hexp⟩ := hs.expanding hbest hnode hnodes
  rw [hclose]
  refine ⟨⟨?_, ?_, hexp.room, ?_⟩, ?_, ?_⟩
  · exact ⟨htree.start, htree.parent, htree.enters, htree.table⟩
  · intro i j child other hi hclosed hj hopen'
    rw [AStarNodes.openNodes_closeNode, Bool.and_eq_true] at hopen'
    refine le_trans ?_ (hexp.least hj hopen'.1)
    rw [AStarNodes.openNodes_closeNode, Bool.and_eq_false_iff, bne_eq_false_iff_eq] at hclosed
    obtain hclosed | rfl := hclosed
    · obtain ⟨hi', hclosed'⟩ := hexp.old hi hclosed
      exact hs.le hi' hclosed' hnode hopen
    · rw [Option.some.inj (hi.symm.trans hnode')]
  · have hfresh : n ∉ nodes.closed := by
      rw [hexp.closed_eq, AStarNodes.mem_closed, hopen]
      exact fun hclosed => Bool.noConfusion hclosed.2
    rw [AStarNodes.closedNodes_closeNode, AStarNodes.closed_closeNode hnode',
      Finset.card_insert_of_notMem hfresh, hexp.closed_eq, hexp.count, hs.count]
    omega
  · intro i child hi hclosed
    obtain ⟨hi', hclosed'⟩ := hexp.kept hi hclosed
    exact ⟨hi', by rw [AStarNodes.openNodes_closeNode, hclosed', Bool.false_and]⟩
  · rw [AStarNodes.closedNodes_closeNode, hexp.count]

theorem ordered_start : Ordered w pathCondition fpp (SearchState.start w).nodes := by
  refine ⟨searchTree_start, ?_, Nat.one_le_iff_ne_zero.mpr (by decide), ?_⟩
  · intro i j node other hi hclosed
    obtain ⟨hlt, -⟩ := List.getElem?_eq_some_iff.mp hi
    obtain rfl := Nat.lt_one_iff.mp hlt
    cases hclosed
  · rfl

/-! ## All rounds -/

theorem rounds_succ {k : ℕ} {s s' : SearchState}
    (h : rounds w pathCondition fpp (k + 1) s = some s') :
    ∃ t, searchStep w pathCondition fpp s = .next t ∧ rounds w pathCondition fpp k t = some s' := by
  rw [rounds] at h
  split at h
  · next t ht => exact ⟨t, ht, h⟩
  · cases h

theorem rounds_concat {k : ℕ} {s t s' : SearchState} (h : rounds w pathCondition fpp k s = some t)
    (h' : searchStep w pathCondition fpp t = .next s') :
    rounds w pathCondition fpp (k + 1) s = some s' := by
  induction k generalizing s with
  | zero =>
    rw [rounds, Option.some.inj h, h']
    rfl
  | succ k ih =>
    obtain ⟨u, hu, hrest⟩ := rounds_succ h
    rw [rounds, hu]
    exact ih hrest

/-- The search is not over after as many rounds as went on. -/
theorem search_eq_none {k : ℕ} {s : SearchState} :
    search w pathCondition fpp k s = none ↔ ∃ s', rounds w pathCondition fpp k s = some s' := by
  induction k generalizing s with
  | zero => exact iff_of_true rfl ⟨s, rfl⟩
  | succ k ih =>
    rw [search, rounds]
    cases searchStep w pathCondition fpp s with
    | next t => exact ih
    | fail => simp
    | stop t => simp

/-- What every round preserves holds after all of them. -/
theorem rounds_invariant {P : SearchState → Prop}
    (hstep : ∀ s s', P s → searchStep w pathCondition fpp s = .next s' → P s') {k : ℕ}
    {s s' : SearchState} (hs : P s) (h : rounds w pathCondition fpp k s = some s') : P s' := by
  induction k generalizing s with
  | zero =>
    rw [← Option.some.inj h]
    exact hs
  | succ k ih =>
    obtain ⟨t, ht, hrest⟩ := rounds_succ h
    exact ih (hstep s t hs ht) hrest

theorem Ordered.of_rounds {k : ℕ} {s s' : SearchState} (hs : Ordered w pathCondition fpp s.nodes)
    (h : rounds w pathCondition fpp k s = some s') :
    Ordered w pathCondition fpp s'.nodes ∧ Settled s.nodes s'.nodes ∧
      s'.nodes.closedNodes = s.nodes.closedNodes + k := by
  induction k generalizing s with
  | zero =>
    obtain rfl := Option.some.inj h
    exact ⟨hs, fun hi hclosed => ⟨hi, hclosed⟩, (add_zero _).symm⟩
  | succ k ih =>
    obtain ⟨t, ht, hrest⟩ := rounds_succ h
    obtain ⟨hordered, hsettled, hcount⟩ := hs.next ht
    obtain ⟨hordered', hsettled', hcount'⟩ := ih hordered hrest
    refine ⟨hordered', fun hi hclosed => ?_, by omega⟩
    obtain ⟨hi', hclosed'⟩ := hsettled hi hclosed
    exact hsettled' hi' hclosed'

theorem rounds_le {k : ℕ} {s : SearchState}
    (h : rounds w pathCondition fpp k (SearchState.start w) = some s) :
    s.nodes.closed.card = k ∧ k ≤ s.nodes.nodes.length ∧ s.nodes.nodes.length ≤ MAX_NODES := by
  obtain ⟨hordered, -, hcount⟩ := ordered_start.of_rounds h
  have hcard := hordered.count
  have hle := s.nodes.card_closed_le
  have hzero : (SearchState.start w).nodes.closedNodes = 0 := rfl
  rw [hzero] at hcount
  have hk : s.nodes.closed.card = k := by omega
  exact ⟨hk, hk ▸ hle, hordered.room⟩

/-! ## The way back -/

/-- The node `i` was reached from the node `p`. -/
def ParentOf (a : AStarNodes) (i p : ℕ) : Prop :=
  ∃ node, a.nodes[i]? = some node ∧ node.parent = some p

theorem SearchTree.f_lt_of_parentOf (ha : SearchTree w pathCondition fpp a) {i p : ℕ}
    (h : ParentOf a i p) : ∃ node parent, a.nodes[i]? = some node ∧ a.nodes[p]? = some parent ∧
      parent.f < node.f := by
  obtain ⟨node, hi, hp⟩ := h
  have hne : i ≠ 0 := by
    rintro rfl
    rw [← Option.some.inj (ha.start.symm.trans hi)] at hp
    cases hp
  obtain ⟨p', parent, hp', hparent, hlink⟩ := ha.parent hi hne
  obtain rfl := Option.some.inj (hp.symm.trans hp')
  exact ⟨node, parent, hi, hparent, hlink.f_lt⟩

/-- No node is among its own parents: they cost less. -/
theorem SearchTree.acyclic (ha : SearchTree w pathCondition fpp a) (i : ℕ) :
    ¬Relation.TransGen (ParentOf a) i i := by
  have hlt : ∀ {p}, Relation.TransGen (ParentOf a) i p → ∃ node parent,
      a.nodes[i]? = some node ∧ a.nodes[p]? = some parent ∧ parent.f < node.f := by
    intro p h
    induction h with
    | single h => exact ha.f_lt_of_parentOf h
    | tail _ h ih =>
      obtain ⟨node, mid, hi, hmid, hf⟩ := ih
      obtain ⟨mid', parent, hmid', hparent, hf'⟩ := ha.f_lt_of_parentOf h
      obtain rfl := Option.some.inj (hmid.symm.trans hmid')
      exact ⟨node, parent, hi, hparent, hf'.trans hf⟩
  intro h
  obtain ⟨node, node', hi, hi', hf⟩ := hlt h
  obtain rfl := Option.some.inj (hi.symm.trans hi')
  exact lt_irrefl _ hf

/-- The walk over the parents comes to its end within the cost of the node. -/
theorem SearchTree.traceBack_eq (ha : SearchTree w pathCondition fpp a) {fuel fuel' i : ℕ}
    {node : AStarNode} (hi : a.nodes[i]? = some node) (hfuel : node.f ≤ fuel)
    (hfuel' : node.f ≤ fuel')
    (x y : UInt16) (dirList : List Direction) :
    traceBack a.nodes fuel x y node.parent dirList =
      traceBack a.nodes fuel' x y node.parent dirList := by
  cases hp : node.parent with
  | none => rw [traceBack_none, traceBack_none]
  | some p =>
    obtain ⟨node', parent, hi', hparent, hf⟩ := ha.f_lt_of_parentOf ⟨node, hi, hp⟩
    obtain rfl := Option.some.inj (hi.symm.trans hi')
    obtain ⟨fuel, rfl⟩ : ∃ k, fuel = k + 1 := ⟨fuel - 1, by omega⟩
    obtain ⟨fuel', rfl⟩ : ∃ k, fuel' = k + 1 := ⟨fuel' - 1, by omega⟩
    rw [traceBack_succ hparent, traceBack_succ hparent]
    exact ha.traceBack_eq hparent (by omega) (by omega) _ _ _
termination_by fuel

/-- The walk from a node over its parents ends: it meets no node twice, and the bound on its
length is never met. -/
structure WalkEnds (a : AStarNodes) : Prop where
  acyclic : ∀ i, ¬Relation.TransGen (ParentOf a) i i
  bound : ∀ {i : ℕ} {node}, a.nodes[i]? = some node → ∀ {fuel}, node.f ≤ fuel →
    ∀ x y dirList, traceBack a.nodes fuel x y node.parent dirList =
      traceBack a.nodes node.f x y node.parent dirList

/-- The body of the loop is entered after `k` rounds. -/
def BodyEntered (w : Walker) (pathCondition : PathCondition) (fpp : FindPathParams) (k : ℕ)
    (s : SearchState) : Prop :=
  rounds w pathCondition fpp k (SearchState.start w) = some s ∧
    (fpp.maxSearchDist ≠ 0 ∨ s.nodes.closedNodes < 100)

/-- The search ends: each round closes a node for good, and the parents of a node lead to the
start. After `MAX_NODES` rounds the body only finds that no node is open. -/
theorem search_terminates (w : Walker) (pathCondition : PathCondition) (fpp : FindPathParams) :
    (∃ last, search w pathCondition fpp (MAX_NODES + 1) (SearchState.start w) = some last) ∧
    (∀ k s, BodyEntered w pathCondition fpp k s → k ≤ MAX_NODES ∧
      (k = MAX_NODES → s.nodes.getBestNode = none)) ∧
    (∀ k s, rounds w pathCondition fpp k (SearchState.start w) = some s →
      s.nodes.closedNodes = k ∧ ∀ m s', rounds w pathCondition fpp m s = some s' →
        Settled s.nodes s'.nodes) ∧
    ∀ fuel s, search w pathCondition fpp fuel (SearchState.start w) = some (.stop s) →
      WalkEnds s.nodes := by
  refine ⟨?_, ?_, ?_, ?_⟩
  · rw [← Option.ne_none_iff_exists', Ne, search_eq_none]
    rintro ⟨s, hs⟩
    obtain ⟨-, hle, hroom⟩ := rounds_le hs
    omega
  · rintro k s ⟨hs, -⟩
    obtain ⟨hcard, hle, hroom⟩ := rounds_le hs
    refine ⟨hle.trans hroom, fun hk => AStarNodes.getBestNode_of_card_closed ?_⟩
    omega
  · intro k s hs
    obtain ⟨hordered, -, hcount⟩ := ordered_start.of_rounds hs
    refine ⟨?_, fun m s' hs' => (hordered.of_rounds hs').2.1⟩
    have hzero : (SearchState.start w).nodes.closedNodes = 0 := rfl
    rw [hcount, hzero, zero_add]
  · intro fuel s hs
    have htree := (search_invariant (fun _ _ => SearchInv.next) (fun _ _ => SearchInv.stop)
      searchInv_start hs).tree
    exact ⟨htree.acyclic, fun hi _ hfuel => htree.traceBack_eq hi hfuel le_rfl⟩

end Order

/-! ## A corridor of `MAX_NODES` tiles -/

/-- The only open node is the best one, unless it is too dear. -/
theorem AStarNodes.getBestNode_of_only {a : AStarNodes} {n : ℕ} {node : AStarNode}
    (hn : a.nodes[n]? = some node) (hopen : ∀ i, a.openNodes i = true ↔ i = n)
    (hf : node.f < 2147483647) : a.getBestNode = some n := by
  obtain ⟨hlt, -⟩ := List.getElem?_eq_some_iff.mp hn
  obtain ⟨hbest, hleast⟩ := foldl_better (a := a) le_rfl
  have hle := hleast n node hlt ((hopen n).mpr rfl) hn
  rw [← getBestNode_eq] at hbest hle
  cases h : a.getBestNode with
  | none =>
    rw [h, bestF] at hle
    omega
  | some m => rw [(hopen m).mp (hbest m h).2]

/-- A neighbour that can not be walked to and has no node is passed over. -/
theorem visitNeighbor_of_blocked {w : Walker} {pathCondition : PathCondition}
    {fpp : FindPathParams} {n : ℕ} {node : AStarNode} {a : AStarNodes} {d : ℤ × ℤ}
    (hnew : a.getNodeByPosition ((w.place node).shift d).x ((w.place node).shift d).y = none)
    (hwalk : w.canWalkTo ((w.place node).shift d) = none) :
    visitNeighbor w pathCondition fpp n node a d = some a := by
  rw [Walker.place] at hnew hwalk
  unfold visitNeighbor
  dsimp only
  rw [hnew, hwalk]
  split <;> rfl

/-- A neighbour that can be entered and has no node gets one. -/
theorem visitNeighbor_of_new {w : Walker} {pathCondition : PathCondition}
    {fpp : FindPathParams} {n : ℕ} {node : AStarNode} {a : AStarNodes} {d : ℤ × ℤ}
    (henters : Enters w pathCondition fpp ((w.place node).shift d))
    (hnew : a.getNodeByPosition ((w.place node).shift d).x ((w.place node).shift d).y = none)
    (hroom : a.nodes.length < MAX_NODES) :
    visitNeighbor w pathCondition fpp n node a d =
      some (a.create { parent := some n, f := newf w node ((w.place node).shift d),
                       x := ((w.place node).shift d).x, y := ((w.place node).shift d).y }) := by
  obtain ⟨hrange, hwalk⟩ := henters
  obtain ⟨t, ht⟩ := Option.isSome_iff_exists.mp hwalk
  have htile := Walker.getTile_of_canWalkTo ht
  rw [newf, htile]
  rw [Walker.place] at hrange hnew ht ⊢
  unfold visitNeighbor
  dsimp only
  rw [hrange, hnew, ht]
  dsimp only
  unfold AStarNodes.createOpenNode
  dsimp only
  rw [if_neg (not_le.mpr hroom)]
  rfl

namespace Corridor

/-- The tile `i` of the corridor. -/
def tile (i : ℕ) : Position := { x := UInt16.ofNat (100 + i), y := 100, z := 7 }

/-- A creature at the west end. -/
def walker : Walker where
  position := tile 0
  creatureTile := some 0
  getWalkCache := fun _ => 2
  getTile := fun pos =>
    if pos.y = 100 ∧ 100 ≤ pos.x.toNat ∧ pos.x.toNat < 612 then some (pos.x.toNat - 100) else none
  queryAdd := fun _ => true
  getTopVisibleCreature := fun _ => false
  fieldHurts := fun _ => false

/-- No position is in the range of a target. -/
def nowhere : PathCondition where
  call := fun _ _ _ bestMatch => (false, bestMatch)
  isInRange := fun _ _ _ => false

def params : FindPathParams := { maxSearchDist := 1000 }

/-- The node that the search has for a tile. -/
def node (i : ℕ) : AStarNode where
  parent := if i = 0 then none else some (i - 1)
  f := MAP_NORMALWALKCOST * i
  x := (tile i).x
  y := (tile i).y

/-- The nodes when the search is at the tile `k`. -/
structure At (k : ℕ) (a : AStarNodes) : Prop where
  nodes : a.nodes = (List.range (k + 1)).map node
  opened : ∀ i, a.openNodes i = true ↔ i = k
  table : ∀ x y : UInt16, a.getNodeByPosition x y =
    if y = 100 ∧ 100 ≤ x.toNat ∧ x.toNat ≤ 100 + k then some (x.toNat - 100) else none

theorem toNat_tile {i : ℕ} (hi : i ≤ MAX_NODES) : (tile i).x.toNat = 100 + i := by
  have hmax : MAX_NODES = 512 := rfl
  rw [tile, UInt16.toNat_ofNat']
  omega

theorem shift_tile {i : ℕ} (hi : i < MAX_NODES) : (tile i).shift (1, 0) = tile (i + 1) := by
  have hmax : MAX_NODES = 512 := rfl
  have hx := toNat_tile hi.le
  have hx' : (tile (i + 1)).x.toNat = 100 + (i + 1) := toNat_tile hi
  rw [Position.shift, Position.mk.injEq]
  refine ⟨UInt16.toNat_inj.mp ?_, rfl, rfl⟩
  have h := Position.toNat_ofInt ((tile i).x.toNat + 1)
  change (UInt16.ofInt ((tile i).x.toNat + 1)).toNat = (tile (i + 1)).x.toNat
  omega

theorem canWalkTo_walker (pos : Position) : walker.canWalkTo pos =
    if pos.y = 100 ∧ 100 ≤ pos.x.toNat ∧ pos.x.toNat < 612 then some (pos.x.toNat - 100)
    else none := by
  change _ = walker.getTile pos
  unfold Walker.canWalkTo
  have hcache : walker.getWalkCache pos = 2 := rfl
  dsimp only
  rw [hcache, if_neg (by decide), if_neg (by decide)]
  split
  · cases walker.getTile pos with
    | none => rfl
    | some t => rfl
  · rfl

theorem getElem?_node {k : ℕ} {a : AStarNodes} (ha : At k a) {i : ℕ} (hi : i ≤ k) :
    a.nodes[i]? = some (node i) := by
  rw [ha.nodes, List.getElem?_map, List.getElem?_range (Nat.lt_succ_of_le hi), Option.map_some]

/-- Beside the corridor there is nothing. -/
theorem visitNeighbor_aside {k n : ℕ} {a : AStarNodes}
    (htable : ∀ x y : UInt16, y ≠ 100 → a.getNodeByPosition x y = none) {d : ℤ × ℤ}
    (hd : d.2 = 1 ∨ d.2 = -1) : visitNeighbor walker nowhere params n (node k) a d = some a := by
  have hy : (UInt16.ofInt ((100 : UInt16).toNat + d.2)) ≠ 100 := by
    rcases hd with hd | hd <;> rw [hd] <;> decide
  apply visitNeighbor_of_blocked
  · exact htable _ _ hy
  · rw [canWalkTo_walker]
    exact if_neg fun h => hy h.1

/-- The offsets from a tile that has one to the west. -/
theorem neighbors_node {k : ℕ} (hk : k < MAX_NODES) :
    neighbors params (if k = 0 then none else some (node (k - 1))) (node k) =
      if k = 0 then allNeighbors else Direction.WEST.dirNeighbors := by
  split
  · rfl
  · next hne =>
    have hx := toNat_tile hk.le
    have hx' := toNat_tile (Nat.le_trans (Nat.sub_le k 1) hk.le)
    have hoffset : ((node (k - 1)).x.toNat : ℤ) - (node k).x.toNat = -1 := by
      change ((tile (k - 1)).x.toNat : ℤ) - (tile k).x.toNat = -1
      omega
    have hoffset' : ((node (k - 1)).y.toNat : ℤ) - (node k).y.toNat = 0 := rfl
    unfold neighbors
    dsimp only
    rw [hoffset, hoffset']
    rfl

theorem enters_tile {i : ℕ} (hi : i < MAX_NODES) : Enters walker nowhere params (tile i) := by
  have hmax : MAX_NODES = 512 := rfl
  have hx := toNat_tile hi.le
  have hzero : (tile 0).x.toNat = 100 := rfl
  refine ⟨?_, ?_⟩
  · have hdx : walker.position.getDistanceX (tile i) ≤ 1000 := by
      change (((tile 0).x.toNat : ℤ) - (tile i).x.toNat).natAbs ≤ 1000
      omega
    have hdy : walker.position.getDistanceY (tile i) = 0 := rfl
    have hdist : params.maxSearchDist.toInt = 1000 := rfl
    unfold inSearchRange
    rw [hdist, hdy,
      decide_eq_false (by omega : ¬(walker.position.getDistanceX (tile i) : ℤ) > 1000)]
    rfl
  · rw [canWalkTo_walker]
    rw [if_pos ⟨rfl, by omega, by omega⟩]
    rfl

/-- What the visits of all neighbours of the last tile lead to. -/
def grown (k : ℕ) (a : AStarNodes) : AStarNodes :=
  if k + 1 < MAX_NODES then a.create (node (k + 1)) else a

theorem visitNeighbor_ahead {k : ℕ} {a : AStarNodes} (ha : At k a) (hk : k < MAX_NODES) :
    visitNeighbor walker nowhere params k (node k) a (1, 0) = some (grown k a) := by
  have hplace : walker.place (node k) = tile k := rfl
  have hx : (tile (k + 1)).x.toNat = 100 + (k + 1) := toNat_tile hk
  have hnew : a.getNodeByPosition (tile (k + 1)).x (tile (k + 1)).y = none := by
    rw [ha.table, if_neg]
    omega
  unfold grown
  split
  · next hlt =>
    rw [visitNeighbor_of_new, hplace, shift_tile hk]
    · have hf : newf walker (node k) (tile (k + 1)) = MAP_NORMALWALKCOST * (k + 1) := by
        have hx' : (tile k).x.toNat = 100 + k := toNat_tile hk.le
        have hcost : AStarNodes.getMapWalkCost (node k) (tile (k + 1)) = MAP_NORMALWALKCOST := by
          apply if_neg
          change ((tile k).x.toNat - (tile (k + 1)).x.toNat : ℤ).natAbs ≠ 0
          omega
        have hextra : ∀ t, walker.getTileWalkCost t = 0 := by
          rintro (_ | t) <;> rfl
        rw [newf, hcost, hextra]
        rfl
      rw [hf]
      rfl
    · rw [hplace, shift_tile hk]
      exact enters_tile hlt
    · rw [hplace, shift_tile hk]
      exact hnew
    · rw [ha.nodes, List.length_map, List.length_range]
      exact hlt
  · next hge =>
    have hmax : MAX_NODES = 512 := rfl
    apply visitNeighbor_of_blocked
    · rw [hplace, shift_tile hk]
      exact hnew
    · rw [hplace, shift_tile hk, canWalkTo_walker]
      apply if_neg
      omega

theorem table_grown {k : ℕ} {a : AStarNodes} (ha : At k a) (x y : UInt16) (hy : y ≠ 100) :
    (grown k a).getNodeByPosition x y = none := by
  have hold : a.getNodeByPosition x y = none := by
    rw [ha.table, if_neg fun h => hy h.1]
  unfold grown
  split
  · rw [AStarNodes.getNodeByPosition_create, if_neg fun h => hy h.2]
    exact hold
  · exact hold

theorem visitNeighbors_aside {k n : ℕ} {found : Bool} {a : AStarNodes}
    (htable : ∀ x y : UInt16, y ≠ 100 → a.getNodeByPosition x y = none) {offsets : List (ℤ × ℤ)}
    (hoffsets : ∀ d ∈ offsets, d.2 = 1 ∨ d.2 = -1) :
    visitNeighbors walker nowhere params found n (node k) offsets a = some a := by
  induction offsets with
  | nil => rfl
  | cons d offsets ih =>
    rw [visitNeighbors, visitNeighbor_aside htable (hoffsets d List.mem_cons_self)]
    exact ih fun e he => hoffsets e (List.mem_cons_of_mem _ he)

theorem visitNeighbors_tile {k : ℕ} {found : Bool} {a : AStarNodes} (ha : At k a)
    (hk : k < MAX_NODES) : visitNeighbors walker nowhere params found k (node k)
      (if k = 0 then allNeighbors else Direction.WEST.dirNeighbors) a = some (grown k a) := by
  have htable : ∀ x y : UInt16, y ≠ 100 → a.getNodeByPosition x y = none := by
    intro x y hy
    rw [ha.table, if_neg fun h => hy h.1]
  split
  · next hzero =>
    subst hzero
    have hwest : visitNeighbor walker nowhere params 0 (node 0) a (-1, 0) = some a := by
      have hx : ((tile 0).shift (-1, 0)).x.toNat = 99 := rfl
      apply visitNeighbor_of_blocked
      · rw [ha.table]
        exact if_neg fun h => absurd (h.2.1.trans_eq hx) (by decide)
      · rw [canWalkTo_walker]
        exact if_neg fun h => absurd (h.2.1.trans_eq hx) (by decide)
    rw [allNeighbors, visitNeighbors, hwest]
    dsimp only
    rw [visitNeighbors, visitNeighbor_aside htable (Or.inl rfl)]
    dsimp only
    rw [visitNeighbors, visitNeighbor_ahead ha hk]
    exact visitNeighbors_aside (table_grown ha) (by decide)
  · rw [Direction.dirNeighbors, visitNeighbors, visitNeighbor_aside htable (Or.inl rfl)]
    dsimp only
    rw [visitNeighbors, visitNeighbor_ahead ha hk]
    exact visitNeighbors_aside (table_grown ha) (by decide)

/-- A round at a tile closes its node. -/
theorem round {k : ℕ} {s : SearchState} (hs : At k s.nodes) (hk : k < MAX_NODES) :
    ∃ s', searchStep walker nowhere params s = .next s' ∧
      s'.nodes = (grown k s.nodes).closeNode k := by
  have hmax : MAX_NODES = 512 := rfl
  have hnode := getElem?_node hs le_rfl
  have hf : (node k).f < 2147483647 := by
    change 10 * k < 2147483647
    omega
  have hbest := AStarNodes.getBestNode_of_only hnode hs.opened hf
  have hparent : ((node k).parent.bind fun p => s.nodes.nodes[p]?) =
      if k = 0 then none else some (node (k - 1)) := by
    unfold node
    dsimp only
    split
    · rfl
    · exact getElem?_node hs (Nat.sub_le k 1)
  have hcall : ∀ pos b, nowhere.call walker.position pos params b = (false, b) := fun _ _ => rfl
  unfold searchStep
  rw [if_pos (Or.inl (by decide)), hbest]
  dsimp only
  rw [hnode]
  dsimp only
  unfold searchNode
  simp only [hcall, hparent, neighbors_node hk, visitNeighbors_tile hs hk]
  exact ⟨_, rfl, rfl⟩

theorem at_succ {k : ℕ} {a : AStarNodes} (ha : At k a) (hk : k + 1 < MAX_NODES) :
    At (k + 1) ((grown k a).closeNode k) := by
  have hx : (tile (k + 1)).x.toNat = 100 + (k + 1) := toNat_tile hk.le
  have hlength : a.nodes.length = k + 1 := by
    rw [ha.nodes, List.length_map, List.length_range]
  rw [grown, if_pos hk]
  constructor
  · rw [AStarNodes.nodes_closeNode, AStarNodes.nodes_create, ha.nodes, List.range_succ (n := k + 1),
      List.map_append]
    rfl
  · intro i
    rw [AStarNodes.openNodes_closeNode, AStarNodes.openNodes_create, hlength, Bool.and_eq_true,
      Bool.or_eq_true, ha.opened, beq_iff_eq, bne_iff_ne]
    omega
  · intro x y
    have hold := ha.table x y
    have hnew : ((a.create (node (k + 1))).closeNode k).getNodeByPosition x y =
        (a.create (node (k + 1))).getNodeByPosition x y := rfl
    rw [hnew, AStarNodes.getNodeByPosition_create, hlength, hold]
    have hhere : x = (node (k + 1)).x ↔ x.toNat = 100 + (k + 1) := by
      rw [← hx]
      exact UInt16.toNat_inj.symm
    have hy : y = (node (k + 1)).y ↔ y = 100 := Iff.rfl
    simp only [hhere, hy]
    by_cases hrow : y = 100
    · by_cases hlast : x.toNat = 100 + (k + 1)
      · rw [if_pos ⟨hlast, hrow⟩, if_pos ⟨hrow, by omega, by omega⟩, hlast,
          Nat.add_sub_cancel_left]
      · rw [if_neg fun h => hlast h.1]
        exact if_congr (and_congr_right fun _ => by omega) rfl rfl
    · rw [if_neg fun h => hrow h.2, if_neg fun h => hrow h.1, if_neg fun h => hrow h.1]

theorem at_start : At 0 (SearchState.start walker).nodes := by
  constructor
  · rfl
  · intro i
    change Function.update (fun _ => false) 0 true i = true ↔ i = 0
    rw [Function.update_apply]
    split
    · next h => exact iff_of_true rfl h
    · next h => exact iff_of_false Bool.false_ne_true h
  · intro x y
    have hx : x = (tile 0).x ↔ x.toNat = 100 := UInt16.toNat_inj.symm
    have hy : y = (tile 0).y ↔ y = 100 := Iff.rfl
    have hstart : (SearchState.start walker).nodes.getNodeByPosition x y =
        if x = (tile 0).x ∧ y = (tile 0).y then some 0 else none :=
      AStarNodes.getNodeByPosition_start
    simp only [hstart, hx, hy]
    by_cases hhere : x.toNat = 100 ∧ y = 100
    · rw [if_pos hhere, if_pos ⟨hhere.2, by omega, by omega⟩, hhere.1]
    · rw [if_neg hhere, if_neg fun h => hhere ⟨by omega, h.1⟩]

/-- The search gets to every tile, one in a round. -/
theorem rounds_at {k : ℕ} (hk : k < MAX_NODES) :
    ∃ s, rounds walker nowhere params k (SearchState.start walker) = some s ∧ At k s.nodes := by
  induction k with
  | zero => exact ⟨_, rfl, at_start⟩
  | succ k ih =>
    obtain ⟨s, hs, hat⟩ := ih (Nat.lt_of_succ_lt hk)
    obtain ⟨s', hs', hnodes⟩ := round hat (Nat.lt_of_succ_lt hk)
    exact ⟨s', rounds_concat hs hs', hnodes ▸ at_succ hat hk⟩

end Corridor

/-- A corridor of `MAX_NODES` tiles takes one more round, which finds no open node. -/
theorem corridor_not_within :
    ¬∀ (w : Walker) (pathCondition : PathCondition) (fpp : FindPathParams) (k : ℕ)
      (s : SearchState), BodyEntered w pathCondition fpp k s → k + 1 ≤ MAX_NODES := by
  intro h
  obtain ⟨s, hs, hat⟩ := Corridor.rounds_at (k := 511) (by decide)
  obtain ⟨s', hs', -⟩ := Corridor.round hat (by decide)
  have hk := h _ _ _ _ _ ⟨rounds_concat hs hs', Or.inl (by decide)⟩
  exact absurd hk (by decide)

end OTServBR
