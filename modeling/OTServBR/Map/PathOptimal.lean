import OTServBR.Map.PathOrder

/-! # The cheapest path

With diagonal steps the search is that of Dijkstra, but for the neighbours of a
node that its parent is a neighbour of as well: they are not tried again. The
parent has been expanded, and gives them a way that is no dearer.
-/

namespace OTServBR

/-! ## The condition on the distance to a target -/

namespace FrozenPathingConditionCall
variable (targetPos : Position) (isSightClear : Position → Position → Bool → Bool)

def isInRange (startPos testPos : Position) (fpp : FindPathParams) : Bool :=
  let maxTargetDist := fpp.maxTargetDist.toInt
  if fpp.fullPathSearch then
    if testPos.x.toNat > targetPos.x.toNat + maxTargetDist then false
    else if testPos.x.toNat < targetPos.x.toNat - maxTargetDist then false
    else if testPos.y.toNat > targetPos.y.toNat + maxTargetDist then false
    else if testPos.y.toNat < targetPos.y.toNat - maxTargetDist then false
    else true
  else
    let dx : ℤ := startPos.x.toNat - targetPos.x.toNat
    let dy : ℤ := startPos.y.toNat - targetPos.y.toNat
    if testPos.x.toNat > targetPos.x.toNat + (if dx ≥ 0 then maxTargetDist else 0) then false
    else if testPos.x.toNat < targetPos.x.toNat - (if dx ≤ 0 then maxTargetDist else 0) then false
    else if testPos.y.toNat > targetPos.y.toNat + (if dy ≥ 0 then maxTargetDist else 0) then false
    else if testPos.y.toNat < targetPos.y.toNat - (if dy ≤ 0 then maxTargetDist else 0) then false
    else true

/-- Whether a position matches, and the best match from then on. -/
def call (startPos testPos : Position) (fpp : FindPathParams) (bestMatchDist : ℤ) : Bool × ℤ :=
  if !isInRange targetPos startPos testPos fpp then (false, bestMatchDist)
  else if fpp.clearSight && !isSightClear testPos targetPos true then (false, bestMatchDist)
  else
    let testDist : ℤ := max (targetPos.getDistanceX testPos) (targetPos.getDistanceY testPos)
    if fpp.maxTargetDist = 1 then
      if testDist < fpp.minTargetDist.toInt ∨ testDist > fpp.maxTargetDist.toInt then
        (false, bestMatchDist)
      else (true, bestMatchDist)
    else if testDist ≤ fpp.maxTargetDist.toInt then
      if testDist < fpp.minTargetDist.toInt then (false, bestMatchDist)
      else if testDist = fpp.maxTargetDist.toInt then (true, 0)
      -- not quite what is wanted, but the best so far
      else if testDist > bestMatchDist then (true, testDist)
      else (false, bestMatchDist)
    else (false, bestMatchDist)

end FrozenPathingConditionCall

def frozenPathingCondition (targetPos : Position)
    (isSightClear : Position → Position → Bool → Bool) : PathCondition where
  call := FrozenPathingConditionCall.call targetPos isSightClear
  isInRange := FrozenPathingConditionCall.isInRange targetPos

/-- A position for which the condition holds with nothing better to look for. -/
def Goal (w : Walker) (pathCondition : PathCondition) (fpp : FindPathParams) (pos : Position) :
    Prop :=
  pathCondition.call w.position pos fpp 0 = (true, 0)

/-- The best matches that there can be. -/
def Matched (fpp : FindPathParams) (bestMatch : ℤ) : Prop :=
  0 ≤ bestMatch ∧ (fpp.maxTargetDist = 1 → bestMatch = 0)

section Condition
variable {targetPos startPos testPos : Position} {isSightClear : Position → Position → Bool → Bool}
  {fpp : FindPathParams} {bestMatch : ℤ}

theorem Matched.of_call (h : Matched fpp bestMatch) : Matched fpp
    (FrozenPathingConditionCall.call targetPos isSightClear startPos testPos fpp bestMatch).2 := by
  unfold FrozenPathingConditionCall.call
  dsimp only
  have hdist : 0 ≤ max (targetPos.getDistanceX testPos : ℤ) (targetPos.getDistanceY testPos) :=
    le_max_of_le_left (Int.natCast_nonneg _)
  split_ifs with _ _ hone
  any_goals exact h
  · exact ⟨le_rfl, fun _ => rfl⟩
  · exact ⟨hdist, fun heq => absurd heq hone⟩

/-- A call that does not hold leaves the best match as it is. -/
theorem call_of_not_held (h : (FrozenPathingConditionCall.call targetPos isSightClear startPos
    testPos fpp bestMatch).1 = false) : (FrozenPathingConditionCall.call targetPos isSightClear
      startPos testPos fpp bestMatch).2 = bestMatch := by
  unfold FrozenPathingConditionCall.call at h ⊢
  dsimp only at h ⊢
  split_ifs at h ⊢ <;> rfl

/-- Whether a position is a goal does not depend on the matches before it. -/
theorem Matched.call_eq_iff (h : Matched fpp bestMatch) :
    FrozenPathingConditionCall.call targetPos isSightClear startPos testPos fpp bestMatch =
        (true, 0) ↔
      FrozenPathingConditionCall.call targetPos isSightClear startPos testPos fpp 0 =
        (true, 0) := by
  obtain ⟨hnonneg, hzero⟩ := h
  unfold FrozenPathingConditionCall.call
  dsimp only
  have hdist : 0 ≤ max (targetPos.getDistanceX testPos : ℤ) (targetPos.getDistanceY testPos) :=
    le_max_of_le_left (Int.natCast_nonneg _)
  generalize max (targetPos.getDistanceX testPos : ℤ) (targetPos.getDistanceY testPos) = testDist
    at hdist ⊢
  by_cases hone : fpp.maxTargetDist = 1
  · rw [hzero hone]
  · split_ifs <;> simp only [Prod.mk.injEq, reduceCtorEq, false_and, true_and, false_iff] <;> omega

end Condition

section Optimal
variable {w : Walker} {pathCondition : PathCondition} {fpp : FindPathParams} {n i p : ℕ}
  {node child parent : AStarNode} {d : ℤ × ℤ} {a a' b : AStarNodes}

/-! ## What the expanded nodes know -/

/-- Every node costs what the way over its parent costs, whose node is closed, and what can be
entered from a closed node has a node that is no dearer than the way over it. -/
structure Relaxed (w : Walker) (pathCondition : PathCondition) (fpp : FindPathParams)
    (a : AStarNodes) : Prop where
  parent : ∀ {i p : ℕ} {node}, a.nodes[i]? = some node → node.parent = some p →
    ∃ parent, a.nodes[p]? = some parent ∧ a.openNodes p = false ∧
      node.f = newf w parent (w.place node)
  around : ∀ {i : ℕ} {node}, a.nodes[i]? = some node → a.openNodes i = false →
    ∀ d ∈ allNeighbors, Enters w pathCondition fpp ((w.place node).shift d) →
      Known w a ((w.place node).shift d) (newf w node ((w.place node).shift d))
  inland : ∀ {i : ℕ} {node}, a.nodes[i]? = some node → a.openNodes i = false →
    Inland w pathCondition fpp (w.place node)

/-- What becomes of the nodes `b` while the node `n` is expanded. -/
structure Spreading (w : Walker) (n : ℕ) (node : AStarNode) (b a : AStarNodes) : Prop where
  child : ∀ {i : ℕ} {child}, a.nodes[i]? = some child →
    b.nodes[i]? = some child ∨ child.parent = some n ∧ child.f = newf w node (w.place child)
  known : ∀ {pos f}, Known w b pos f → Known w a pos f

theorem Spreading.of_visited (h : Spreading w n node b a) (ha : SearchTree w pathCondition fpp a)
    (hvisited : Visited w pathCondition fpp n node ((w.place node).shift d) a a') :
    Spreading w n node b a' := by
  refine ⟨fun hi => ?_, fun hknown => (h.known hknown).of_visited hvisited⟩
  obtain ⟨hold, -⟩ | ⟨hfresh, -⟩ := hvisited.old_or_fresh ha hi
  · exact h.child hold
  · exact Or.inr ⟨hfresh.parent, hfresh.f_eq⟩

theorem Position.shift_zero (pos : Position) : pos.shift (0, 0) = pos := by
  have hzero : UInt16.ofInt 0 = 0 := rfl
  rw [shift, ofInt_add, ofInt_add, hzero, UInt16.add_zero, UInt16.add_zero]

/-- The neighbours that are left out are the parent and its straight neighbours. -/
theorem mem_neighbors_or (hallow : fpp.allowDiagonal = true) {c : ℤ × ℤ} (hc : c ∈ allNeighbors)
    (hx : (node.x.toNat : ℤ) = parent.x.toNat + c.1)
    (hy : (node.y.toNat : ℤ) = parent.y.toNat + c.2) (hd : d ∈ allNeighbors) :
    d ∈ neighbors fpp (some parent) node ∨ (c.1 + d.1, c.2 + d.2) = (0, 0) ∨
      (c.1 + d.1, c.2 + d.2) ∈ allNeighbors ∧ ¬Diagonal (c.1 + d.1, c.2 + d.2) := by
  have hdx : (parent.x.toNat : ℤ) - node.x.toNat = -c.1 := by omega
  have hdy : (parent.y.toNat : ℤ) - node.y.toNat = -c.2 := by omega
  have hall : ∀ c ∈ allNeighbors, ∀ d ∈ allNeighbors, d ∈
      (if -c.2 = 0 then if -c.1 = -1 then Direction.WEST else .EAST
        else if -c.1 = 0 then if -c.2 = -1 then .NORTH else .SOUTH
        else if -c.2 = -1 then if -c.1 = -1 then .NORTHWEST else .NORTHEAST
        else if -c.1 = -1 then .SOUTHWEST else .SOUTHEAST).dirNeighbors.take 5 ∨
      (c.1 + d.1, c.2 + d.2) = (0, 0) ∨
      (c.1 + d.1, c.2 + d.2) ∈ allNeighbors ∧ ¬Diagonal (c.1 + d.1, c.2 + d.2) := by
    decide
  have hmem := hall c hc d hd
  unfold neighbors
  dsimp only
  rw [hdx, hdy, hallow]
  simp only [Bool.not_true, Bool.false_or, decide_eq_true_eq, if_true]
  exact hmem

/-- A straight step from a node that is no dearer costs no more. -/
theorem newf_le_newf (hinland : Inland w pathCondition fpp (w.place parent)) (hd : d ∈ allNeighbors)
    (hstraight : ¬Diagonal d) (henters : Enters w pathCondition fpp ((w.place parent).shift d))
    (hle : parent.f ≤ node.f) :
    newf w parent ((w.place parent).shift d) ≤ newf w node ((w.place parent).shift d) := by
  have hcost : MAP_NORMALWALKCOST ≤
      AStarNodes.getMapWalkCost node ((w.place parent).shift d) := by
    unfold AStarNodes.getMapWalkCost
    split <;> decide
  rw [hinland.newf_shift hd henters, if_neg hstraight, newf]
  omega

/-- What can be entered from the node that is expanded is known afterwards, also where it is left
out. -/
theorem Relaxed.known_around (hr : Relaxed w pathCondition fpp b)
    (hb : SearchTree w pathCondition fpp b) (hallow : fpp.allowDiagonal = true)
    (hn : b.nodes[n]? = some node)
    (hold : ∀ {pos f}, Known w b pos f → Known w a pos f)
    (hvisited : ∀ d ∈ neighbors fpp (node.parent.bind fun p => b.nodes[p]?) node,
      Enters w pathCondition fpp ((w.place node).shift d) →
        Known w a ((w.place node).shift d) (newf w node ((w.place node).shift d)))
    (hd : d ∈ allNeighbors) (henters : Enters w pathCondition fpp ((w.place node).shift d)) :
    Known w a ((w.place node).shift d) (newf w node ((w.place node).shift d)) := by
  by_cases hzero : n = 0
  · subst hzero
    refine hvisited d ?_ henters
    rw [← Option.some.inj (hb.start.symm.trans hn)]
    exact hd
  obtain ⟨p, parent, hp, hparent, hlink⟩ := hb.parent hn hzero
  obtain ⟨c, hc, hplace, -⟩ := hlink.offset
  obtain ⟨parent', hparent', hclosed, -⟩ := hr.parent hn hp
  obtain rfl := Option.some.inj (hparent.symm.trans hparent')
  have hinland := hr.inland hparent hclosed
  have hplace' := hb.enters hn hzero
  rw [hplace] at hplace'
  obtain ⟨hx, hy⟩ := hinland c hc hplace'
  rw [← hplace] at hx hy
  have hbind : (node.parent.bind fun p => b.nodes[p]?) = some parent := by
    rw [hp, Option.bind_some, hparent]
  have hshift : (w.place node).shift d = (w.place parent).shift (c.1 + d.1, c.2 + d.2) := by
    rw [hplace, shift_shift]
  obtain hmem | hback | ⟨hmem, hstraight⟩ := mem_neighbors_or hallow hc hx hy hd
  · rw [← hbind] at hmem
    exact hvisited d hmem henters
  · -- the parent itself
    rw [hback, Position.shift_zero] at hshift
    exact hold ⟨p, parent, hparent, hshift.symm, hlink.f_lt.le.trans f_lt_newf.le⟩
  · -- a straight neighbour of the parent, which is closed
    rw [hshift] at henters ⊢
    obtain ⟨j, other, hj, hother, hf⟩ := hr.around hparent hclosed _ hmem henters
    exact hold ⟨j, other, hj, hother,
      hf.trans (newf_le_newf hinland hmem hstraight henters hlink.f_lt.le)⟩

theorem Relaxed.expanded (hr : Relaxed w pathCondition fpp b) (hb : Ordered w pathCondition fpp b)
    (hallow : fpp.allowDiagonal = true) (hbest : b.getBestNode = some n)
    (hn : b.nodes[n]? = some node) (hinland : Inland w pathCondition fpp (w.place node))
    {found : Bool} (h : visitNeighbors w pathCondition fpp found n node
      (neighbors fpp (node.parent.bind fun p => b.nodes[p]?) node) b = some a)
    (hroom : a.nodes.length < MAX_NODES) : Relaxed w pathCondition fpp (a.closeNode n) := by
  have hoffsets := offsets_of_neighbors hb.tree hn
  obtain ⟨htree, hn', hexp⟩ := hb.expanding hbest hn h
  obtain ⟨-, hspread⟩ := visitNeighbors_invariant (P := Spreading w n node b) hoffsets
    (fun _ _ _ _ ha _ hvisited hP => hP.of_visited ha hvisited) hb.tree hn
    ⟨fun hi => Or.inl hi, id⟩ h
  have hvisited := visitNeighbors_forall (P := fun _ => True)
    (Q := fun d a => Enters w pathCondition fpp ((w.place node).shift d) →
      Known w a ((w.place node).shift d) (newf w node ((w.place node).shift d))) hoffsets
    (fun _ _ _ _ _ _ hvisited _ => ⟨trivial, hvisited.known,
      fun _ hQ henters => (hQ henters).of_visited hvisited⟩) hb.tree hn trivial h hroom
  constructor
  · intro i p child hi hp
    obtain hold | ⟨hparent, hf⟩ := hspread.child hi
    · obtain ⟨parent, hparent, hclosed, hf⟩ := hr.parent hold hp
      obtain ⟨hparent', hclosed'⟩ := hexp.kept hparent hclosed
      refine ⟨parent, hparent', ?_, hf⟩
      rw [AStarNodes.openNodes_closeNode, hclosed', Bool.false_and]
    · obtain rfl := Option.some.inj (hparent.symm.trans hp)
      refine ⟨node, hn', ?_, hf⟩
      rw [AStarNodes.openNodes_closeNode, bne_self_eq_false, Bool.and_false]
  · intro i child hi hclosed d hd henters
    rw [AStarNodes.openNodes_closeNode, Bool.and_eq_false_iff, bne_eq_false_iff_eq] at hclosed
    obtain hclosed | rfl := hclosed
    · obtain ⟨hi', hclosed'⟩ := hexp.old hi hclosed
      exact hspread.known (hr.around hi' hclosed' d hd henters)
    · obtain rfl := Option.some.inj (hn'.symm.trans hi)
      exact hr.known_around hb.tree hallow hn hspread.known hvisited hd henters
  · intro i child hi hclosed
    rw [AStarNodes.openNodes_closeNode, Bool.and_eq_false_iff, bne_eq_false_iff_eq] at hclosed
    obtain hclosed | rfl := hclosed
    · obtain ⟨hi', hclosed'⟩ := hexp.old hi hclosed
      exact hr.inland hi' hclosed'
    · obtain rfl := Option.some.inj (hn'.symm.trans hi)
      exact hinland

theorem relaxed_start : Relaxed w pathCondition fpp (SearchState.start w).nodes := by
  have hopen : ∀ {i : ℕ} {node}, (SearchState.start w).nodes.nodes[i]? = some node →
      (SearchState.start w).nodes.openNodes i = true := by
    intro i node hi
    obtain ⟨hlt, -⟩ := List.getElem?_eq_some_iff.mp hi
    obtain rfl := Nat.lt_one_iff.mp hlt
    rfl
  constructor
  · intro i p node hi hp
    obtain ⟨hlt, -⟩ := List.getElem?_eq_some_iff.mp hi
    obtain rfl := Nat.lt_one_iff.mp hlt
    rw [← Option.some.inj hi] at hp
    cases hp
  · intro i node hi hclosed
    cases (hopen hi).symm.trans hclosed
  · intro i node hi hclosed
    cases (hopen hi).symm.trans hclosed

/-! ## What paths cost -/

def stepCost (w : Walker) (pos : Position) (direction : Direction) : ℕ :=
  (if direction.isDiagonal then MAP_DIAGONALWALKCOST else MAP_NORMALWALKCOST) +
    w.getTileWalkCost (w.getTile (getNextPosition direction pos))

/-- The cost of all steps from a position and of the tiles that they enter. -/
def pathCost (w : Walker) : Position → List Direction → ℕ
  | _, [] => 0
  | pos, direction :: dirList =>
    stepCost w pos direction + pathCost w (getNextPosition direction pos) dirList

theorem pathCost_concat (w : Walker) (pos : Position) (dirList : List Direction)
    (direction : Direction) : pathCost w pos (dirList ++ [direction]) =
      pathCost w pos dirList + stepCost w (goal pos dirList) direction := by
  induction dirList generalizing pos with
  | nil => exact (Nat.add_zero _).trans (Nat.zero_add _).symm
  | cons e dirList ih =>
    rw [List.cons_append, pathCost, ih, pathCost, Nat.add_assoc]
    rfl

/-- A direction leads to a neighbour. -/
theorem exists_offset (direction : Direction) (pos : Position) : ∃ d ∈ allNeighbors,
    getNextPosition direction pos = pos.shift d ∧ (direction.isDiagonal ↔ Diagonal d) := by
  have hzero : UInt16.ofInt 0 = 0 := rfl
  have hone : UInt16.ofInt 1 = 1 := rfl
  simp only [Position.shift, ofInt_add]
  cases direction with
  | NORTH =>
    exact ⟨(0, -1), by decide, by simp [getNextPosition, UInt16.sub_eq_add_neg, hzero], by decide⟩
  | EAST => exact ⟨(1, 0), by decide, by simp [getNextPosition, hzero, hone], by decide⟩
  | SOUTH => exact ⟨(0, 1), by decide, by simp [getNextPosition, hzero, hone], by decide⟩
  | WEST =>
    exact ⟨(-1, 0), by decide, by simp [getNextPosition, UInt16.sub_eq_add_neg, hzero], by decide⟩
  | SOUTHWEST =>
    exact ⟨(-1, 1), by decide, by simp [getNextPosition, UInt16.sub_eq_add_neg, hone], by decide⟩
  | SOUTHEAST => exact ⟨(1, 1), by decide, by simp [getNextPosition, hone], by decide⟩
  | NORTHWEST =>
    exact ⟨(-1, -1), by decide, by simp [getNextPosition, UInt16.sub_eq_add_neg], by decide⟩
  | NORTHEAST =>
    exact ⟨(1, -1), by decide, by simp [getNextPosition, UInt16.sub_eq_add_neg, hone], by decide⟩

/-- What a way over a node costs is what the step costs. -/
theorem Inland.newf_eq (h : Inland w pathCondition fpp (w.place node)) (hd : d ∈ allNeighbors)
    {direction : Direction} (hnext : getNextPosition direction (w.place node) =
      (w.place node).shift d) (hdiagonal : direction.isDiagonal ↔ Diagonal d)
    (henters : Enters w pathCondition fpp ((w.place node).shift d)) :
    newf w node ((w.place node).shift d) = node.f + stepCost w (w.place node) direction := by
  rw [h.newf_shift hd henters, stepCost, hnext, if_congr hdiagonal rfl rfl,
    Nat.add_assoc]

/-- Along any path all nodes are closed and no dearer than the path, up to a position that costs at
least what the best node costs. -/
theorem Relaxed.closed_or_le (hr : Relaxed w pathCondition fpp a)
    (ha : SearchTree w pathCondition fpp a) (hbest : a.getBestNode = some n)
    (hn : a.nodes[n]? = some node) (dirList : List Direction)
    (henters : ∀ pos ∈ replay w.position dirList, Enters w pathCondition fpp pos) :
    (∃ i child, a.nodes[i]? = some child ∧ a.openNodes i = false ∧
      w.place child = goal w.position dirList ∧ child.f ≤ pathCost w w.position dirList) ∨
    node.f ≤ pathCost w w.position dirList := by
  obtain ⟨-, hleast⟩ := AStarNodes.getBestNode_spec hbest hn
  induction dirList using List.reverseRecOn with
  | nil =>
    cases hopen : a.openNodes 0 with
    | true => exact Or.inr (hleast 0 _ hopen ha.start)
    | false => exact Or.inl ⟨0, _, ha.start, hopen, ha.place_zero ha.start, le_rfl⟩
  | append_singleton dirList direction ih =>
    rw [replay_concat] at henters
    have henters' : ∀ pos ∈ replay w.position dirList, Enters w pathCondition fpp pos :=
      fun pos hpos => henters pos (List.mem_append_left _ hpos)
    rw [pathCost_concat, goal_concat]
    obtain ⟨i, child, hi, hclosed, hplace, hf⟩ | hle := ih henters'
    · have hlast := henters _ (List.mem_append_right _ (List.mem_singleton.mpr rfl))
      rw [← hplace] at hlast ⊢
      obtain ⟨d, hd, hnext, hdiagonal⟩ := exists_offset direction (w.place child)
      rw [hnext] at hlast
      obtain ⟨j, other, hj, hother, hf'⟩ := hr.around hi hclosed d hd hlast
      rw [(hr.inland hi hclosed).newf_eq hd hnext hdiagonal hlast] at hf'
      cases hopen : a.openNodes j with
      | true =>
        have hle := hleast j other hopen hj
        exact Or.inr (by omega)
      | false => exact Or.inl ⟨j, other, hj, hopen, hother.trans hnext.symm, by omega⟩
    · exact Or.inr (by omega)

/-- The path to a node costs what the node costs. -/
theorem Relaxed.pathCost_eq (hr : Relaxed w pathCondition fpp a)
    (ha : SearchTree w pathCondition fpp a) (hallow : fpp.allowDiagonal = true)
    (hn : a.nodes[n]? = some node) :
    Leads w pathCondition fpp (traceBack a.nodes node.f node.x node.y node.parent [])
      (w.place node) ∧
    pathCost w w.position (traceBack a.nodes node.f node.x node.y node.parent []) = node.f := by
  have hfirst : fpp.allowDiagonal = false → FirstStraight w a n := by
    rw [hallow]
    exact fun h => Bool.noConfusion h
  -- every parent is closed
  have hinland : ∀ {i p : ℕ} {node parent : AStarNode}, a.nodes[i]? = some node →
      node.parent = some p → a.nodes[p]? = some parent →
        Inland w pathCondition fpp (w.place parent) := by
    intro i p node parent hi hp hparent
    obtain ⟨parent', hparent', hclosed, -⟩ := hr.parent hi hp
    obtain rfl := Option.some.inj (hparent.symm.trans hparent')
    exact hr.inland hparent hclosed
  obtain ⟨dirs, hdirs, hleads⟩ := ha.traceBack_leads hinland hfirst hn le_rfl []
  obtain ⟨dirs', hdirs', hcost⟩ := ha.traceBack_induction hinland
    (P := fun i dirs => ∀ node, a.nodes[i]? = some node →
      goal w.position dirs = w.place node ∧ pathCost w w.position dirs = node.f)
    (fun node hzero => by
      rw [← Option.some.inj (ha.start.symm.trans hzero)]
      exact ⟨rfl, rfl⟩)
    (fun {i p child parent d direction dirs} h hP other hi => by
      obtain rfl := Option.some.inj (h.node.symm.trans hi)
      obtain ⟨hgoal, hcost⟩ := hP parent h.parent_node
      obtain ⟨parent', hparent', hclosed, hf⟩ := hr.parent hi h.parent_eq
      obtain rfl := Option.some.inj (h.parent_node.symm.trans hparent')
      have henters := ha.enters hi h.ne_zero
      rw [h.place] at henters hf
      rw [goal_concat, pathCost_concat, hgoal, hcost, h.next, hf]
      exact ⟨rfl, ((hr.inland h.parent_node hclosed).newf_eq h.mem (h.next.trans h.place)
        h.diagonal henters).symm⟩) hn le_rfl []
  rw [List.append_nil] at hdirs hdirs'
  rw [hdirs]
  exact ⟨hleads, hdirs ▸ hdirs' ▸ (hcost node hn).2⟩

/-- A path over tiles that can be walked on, within the search distance. -/
structure WalksWithin (w : Walker) (fpp : FindPathParams) (dirList : List Direction) : Prop where
  walkable : ∀ pos ∈ replay w.position dirList, (w.canWalkTo pos).isSome
  near : ∀ pos ∈ replay w.position dirList,
    w.position.getDistanceX pos ≤ fpp.maxSearchDist.toInt ∧
      w.position.getDistanceY pos ≤ fpp.maxSearchDist.toInt

/-- A path to a goal that costs no more than any other. -/
structure Cheapest (w : Walker) (pathCondition : PathCondition) (fpp : FindPathParams)
    (dirList : List Direction) : Prop where
  walks : WalksWithin w fpp dirList
  goal : Goal w pathCondition fpp (goal w.position dirList)
  least : ∀ dirs, WalksWithin w fpp dirs →
    Goal w pathCondition fpp (OTServBR.goal w.position dirs) →
      pathCost w w.position dirList ≤ pathCost w w.position dirs

theorem WalksWithin.enters {dirList : List Direction} (h : WalksWithin w fpp dirList)
    (hkeep : fpp.keepDistance = false) :
    ∀ pos ∈ replay w.position dirList, Enters w pathCondition fpp pos := by
  intro pos hpos
  obtain ⟨hx, hy⟩ := h.near pos hpos
  refine ⟨?_, h.walkable pos hpos⟩
  unfold inSearchRange
  rw [hkeep, Bool.false_and, Bool.not_false, Bool.and_true, decide_eq_false (not_lt.mpr hx),
    decide_eq_false (not_lt.mpr hy), Bool.or_false, Bool.and_false, Bool.not_false]

/-- No position that is as near as the nearest goal has one to enter across the edge of the map. -/
def Landlocked (w : Walker) (pathCondition : PathCondition) (fpp : FindPathParams) : Prop :=
  ∀ dirList, WalksWithin w fpp dirList →
    (∀ dirs, WalksWithin w fpp dirs → Goal w pathCondition fpp (goal w.position dirs) →
      pathCost w w.position dirList ≤ pathCost w w.position dirs) →
    Inland w pathCondition fpp (goal w.position dirList)

/-- The best node is as near as any goal, as long as no goal is closed. -/
theorem Relaxed.nearest (hr : Relaxed w pathCondition fpp a)
    (ha : SearchTree w pathCondition fpp a) (hallow : fpp.allowDiagonal = true)
    (hkeep : fpp.keepDistance = false) (hdist : fpp.maxSearchDist ≠ 0)
    (hmissed : ∀ {i : ℕ} {node}, a.nodes[i]? = some node → a.openNodes i = false →
      ¬Goal w pathCondition fpp (w.place node))
    (hbest : a.getBestNode = some n) (hn : a.nodes[n]? = some node) :
    WalksWithin w fpp (traceBack a.nodes node.f node.x node.y node.parent []) ∧
    goal w.position (traceBack a.nodes node.f node.x node.y node.parent []) = w.place node ∧
    ∀ dirs, WalksWithin w fpp dirs → Goal w pathCondition fpp (goal w.position dirs) →
      pathCost w w.position (traceBack a.nodes node.f node.x node.y node.parent []) ≤
        pathCost w w.position dirs := by
  obtain ⟨hleads, hcost⟩ := hr.pathCost_eq ha hallow hn
  refine ⟨⟨fun pos hpos => (hleads.enters pos hpos).2,
    fun pos hpos => (hleads.enters pos hpos).near hdist⟩, hleads.goal_eq,
    fun dirs hwalks hgoal => ?_⟩
  rw [hcost]
  obtain ⟨i, child, hi, hclosed, hplace, -⟩ | hle :=
    hr.closed_or_le ha hbest hn dirs (hwalks.enters hkeep)
  · rw [← hplace] at hgoal
    exact absurd hgoal (hmissed hi hclosed)
  · exact hle

/-! ## The search -/

/-- A round that goes on makes no goal of its node. -/
theorem searchStep_next_match {s s' : SearchState}
    (h : searchStep w pathCondition fpp s = .next s') : ∃ n node, s.nodes.getBestNode = some n ∧
      s.nodes.nodes[n]? = some node ∧
      s'.bestMatch = (pathCondition.call w.position (w.place node) fpp s.bestMatch).2 ∧
      pathCondition.call w.position (w.place node) fpp s.bestMatch ≠ (true, 0) ∧
      (s'.found.isSome → (pathCondition.call w.position (w.place node) fpp s.bestMatch).1 = false →
        s.found.isSome) := by
  unfold searchStep at h
  split at h
  · split at h
    · split at h <;> cases h
    · next n hn =>
      split at h
      · cases h
      · next node hnode =>
        unfold searchNode at h
        dsimp only at h
        split at h
        · cases h
        · next hgo =>
          split at h
          · cases h
          · cases h
            refine ⟨n, node, hn, hnode, rfl, fun hcall => hgo ?_, fun hfound hheld => ?_⟩
            · have hheld := Prod.ext_iff.mp hcall
              exact Bool.and_eq_true_iff.mpr ⟨hheld.1, decide_eq_true hheld.2⟩
            · dsimp only at hfound
              rw [if_neg] at hfound
              · exact hfound
              · exact fun hheld' => Bool.false_ne_true (hheld.symm.trans hheld')
  · cases h

/-- The search stops at a goal, or with what it had found before. -/
theorem searchStep_stop_match {s s' : SearchState} (hdist : fpp.maxSearchDist ≠ 0)
    (h : searchStep w pathCondition fpp s = .stop s') :
    s' = s ∧ s.found.isSome ∨ ∃ n node, s.nodes.getBestNode = some n ∧
      s.nodes.nodes[n]? = some node ∧
      pathCondition.call w.position (w.place node) fpp s.bestMatch = (true, 0) ∧
      s'.found = some (n, w.place node) ∧ s'.nodes = s.nodes := by
  unfold searchStep at h
  rw [if_pos (Or.inl hdist)] at h
  split at h
  · split at h
    · next hfound =>
      cases h
      exact Or.inl ⟨rfl, hfound⟩
    · cases h
  · next n hn =>
    split at h
    · cases h
    · next node hnode =>
      unfold searchNode at h
      dsimp only at h
      split at h
      · next hheld =>
        cases h
        rw [Bool.and_eq_true, decide_eq_true_eq] at hheld
        refine Or.inr ⟨n, node, hn, hnode, Prod.ext hheld.1 hheld.2, ?_, rfl⟩
        exact if_pos hheld.1
      · split at h <;> cases h

end Optimal

section Search
variable {w : Walker} {targetPos : Position} {isSightClear : Position → Position → Bool → Bool}
  {fpp : FindPathParams}

/-- What holds before every round. -/
structure Searching (w : Walker) (targetPos : Position)
    (isSightClear : Position → Position → Bool → Bool) (fpp : FindPathParams) (s : SearchState) :
    Prop where
  ordered : Ordered w (frozenPathingCondition targetPos isSightClear) fpp s.nodes
  relaxed : s.nodes.nodes.length < MAX_NODES →
    Relaxed w (frozenPathingCondition targetPos isSightClear) fpp s.nodes
  missed : ∀ {i : ℕ} {node}, s.nodes.nodes[i]? = some node → s.nodes.openNodes i = false →
    ¬Goal w (frozenPathingCondition targetPos isSightClear) fpp (w.place node)
  matched : Matched fpp s.bestMatch
  found : s.found.isSome → s.bestMatch ≠ 0

theorem searching_start : Searching w targetPos isSightClear fpp (SearchState.start w) := by
  refine ⟨ordered_start, fun _ => relaxed_start, ?_, ⟨le_rfl, fun _ => rfl⟩, nofun⟩
  intro i node hi hclosed
  obtain ⟨hlt, -⟩ := List.getElem?_eq_some_iff.mp hi
  obtain rfl := Nat.lt_one_iff.mp hlt
  cases hclosed

theorem Searching.next {s s' : SearchState} (hs : Searching w targetPos isSightClear fpp s)
    (hland : Landlocked w (frozenPathingCondition targetPos isSightClear) fpp)
    (hallow : fpp.allowDiagonal = true) (hkeep : fpp.keepDistance = false)
    (hdist : fpp.maxSearchDist ≠ 0)
    (h : searchStep w (frozenPathingCondition targetPos isSightClear) fpp s = .next s') :
    Searching w targetPos isSightClear fpp s' := by
  obtain ⟨n, node, hbest', hnode', hmatch, hcall, hfound⟩ := searchStep_next_match h
  have hordered := (hs.ordered.next h).1
  obtain ⟨n', node', nodes, hbest, hnode, hnodes, hclose, -⟩ := searchStep_next h
  obtain rfl := Option.some.inj (hbest'.symm.trans hbest)
  obtain rfl := Option.some.inj (hnode'.symm.trans hnode)
  obtain ⟨-, hnode'', hexp⟩ := hs.ordered.expanding hbest hnode hnodes
  refine ⟨hordered, ?_, ?_, ?_, ?_⟩
  · rw [hclose]
    intro hroom
    have hrelaxed := hs.relaxed (hexp.grows.trans_lt hroom)
    obtain ⟨hwalks, hgoal, hnearest⟩ :=
      hrelaxed.nearest hs.ordered.tree hallow hkeep hdist hs.missed hbest hnode
    have hinland := hland _ hwalks hnearest
    rw [hgoal] at hinland
    exact hrelaxed.expanded hs.ordered hallow hbest hnode hinland hnodes hroom
  · rw [hclose]
    intro i child hi hclosed hgoal
    rw [AStarNodes.openNodes_closeNode, Bool.and_eq_false_iff, bne_eq_false_iff_eq] at hclosed
    obtain hclosed | rfl := hclosed
    · obtain ⟨hi', hclosed'⟩ := hexp.old hi hclosed
      exact hs.missed hi' hclosed' hgoal
    · obtain rfl := Option.some.inj (hnode''.symm.trans hi)
      exact hcall (hs.matched.call_eq_iff.mpr hgoal)
  · rw [hmatch]
    exact hs.matched.of_call
  · intro hsome hzero
    rw [hmatch] at hzero
    cases hheld : ((frozenPathingCondition targetPos isSightClear).call w.position (w.place node)
      fpp s.bestMatch).1 with
    | true => exact hcall (Prod.ext hheld hzero)
    | false => exact hs.found (hfound hsome hheld) ((call_of_not_held hheld).symm.trans hzero)

/-- The search has stopped at the node of a goal, the cheapest of those that are open. -/
structure StoppedAt (w : Walker) (targetPos : Position)
    (isSightClear : Position → Position → Bool → Bool) (fpp : FindPathParams) (s : SearchState)
    (n : ℕ) (last : AStarNode) : Prop where
  tree : SearchTree w (frozenPathingCondition targetPos isSightClear) fpp s.nodes
  relaxed : Relaxed w (frozenPathingCondition targetPos isSightClear) fpp s.nodes
  missed : ∀ {i : ℕ} {node}, s.nodes.nodes[i]? = some node → s.nodes.openNodes i = false →
    ¬Goal w (frozenPathingCondition targetPos isSightClear) fpp (w.place node)
  best : s.nodes.getBestNode = some n
  node : s.nodes.nodes[n]? = some last
  goal : Goal w (frozenPathingCondition targetPos isSightClear) fpp (w.place last)
  found : s.found = some (n, w.place last)

theorem Searching.stop {s s' : SearchState} (hs : Searching w targetPos isSightClear fpp s)
    (hdist : fpp.maxSearchDist ≠ 0)
    (h : searchStep w (frozenPathingCondition targetPos isSightClear) fpp s = .stop s')
    (hmatch : s'.bestMatch = 0) (hroom : s'.nodes.nodes.length < MAX_NODES) :
    ∃ n node, StoppedAt w targetPos isSightClear fpp s' n node := by
  obtain ⟨rfl, hfound⟩ | ⟨n, node, hbest, hnode, hcall, hfound, hnodes⟩ :=
    searchStep_stop_match hdist h
  · exact absurd hmatch (hs.found hfound)
  · rw [hnodes] at hroom
    refine ⟨n, node, ?_, ?_, ?_, ?_, ?_, hs.matched.call_eq_iff.mp hcall, hfound⟩
    · exact hnodes ▸ hs.ordered.tree
    · exact hnodes ▸ hs.relaxed hroom
    · rw [hnodes]
      exact hs.missed
    · rw [hnodes, hbest]
    · rw [hnodes, hnode]

/-! ## Optimality -/

/-- The search stops with best match 0, and there was room for all nodes. -/
structure StopsAtGoal (w : Walker) (pathCondition : PathCondition) (fpp : FindPathParams)
    (fuel : ℕ) (s : SearchState) : Prop where
  stop : search w pathCondition fpp fuel (SearchState.start w) = some (.stop s)
  bestMatch : s.bestMatch = 0
  room : s.nodes.nodes.length < MAX_NODES

theorem StoppedAt.cheapest {s : SearchState} {n : ℕ} {node : AStarNode}
    (h : StoppedAt w targetPos isSightClear fpp s n node)
    (hallow : fpp.allowDiagonal = true) (hkeep : fpp.keepDistance = false)
    (hdist : fpp.maxSearchDist ≠ 0) : Cheapest w (frozenPathingCondition targetPos isSightClear) fpp
      (traceBack s.nodes.nodes node.f node.x node.y node.parent []) := by
  obtain ⟨hwalks, hgoal, hnearest⟩ :=
    h.relaxed.nearest h.tree hallow hkeep hdist h.missed h.best h.node
  exact ⟨hwalks, hgoal ▸ h.goal, hnearest⟩

end Search

/-- Within a search distance of half the map no step crosses its edge. -/
theorem seamless_of_maxSearchDist {w : Walker} {pathCondition : PathCondition}
    {fpp : FindPathParams} (hne : fpp.maxSearchDist ≠ 0) (hle : fpp.maxSearchDist ≤ 32767) :
    Seamless w pathCondition fpp := by
  have hhalf : fpp.maxSearchDist.toInt ≤ 32767 := Int32.le_iff_toInt_le.mp hle
  have hnear : ∀ pos, Place w pathCondition fpp pos →
      ((w.position.x.toNat : ℤ) - pos.x.toNat).natAbs ≤ 32767 ∧
        ((w.position.y.toNat : ℤ) - pos.y.toNat).natAbs ≤ 32767 := by
    rintro pos (rfl | henters)
    · rw [sub_self, sub_self]
      decide
    · obtain ⟨hx, hy⟩ := henters.near hne
      rw [Position.getDistanceX] at hx
      rw [Position.getDistanceY] at hy
      omega
  intro p q hp hq d hd hshift
  obtain ⟨hpx, hpy⟩ := hnear p hp
  obtain ⟨hqx, hqy⟩ := hnear q hq
  have hx : (q.x.toNat : ℤ) = (p.x.toNat + d.1) % 2 ^ 16 := by
    rw [hshift]
    exact Position.toNat_ofInt _
  have hy : (q.y.toNat : ℤ) = (p.y.toNat + d.2) % 2 ^ 16 := by
    rw [hshift]
    exact Position.toNat_ofInt _
  have hunit : ∀ d ∈ allNeighbors, -1 ≤ d.1 ∧ d.1 ≤ 1 ∧ -1 ≤ d.2 ∧ d.2 ≤ 1 := by decide
  have hd' := hunit d hd
  have hpx' := p.x.toNat_lt
  have hpy' := p.y.toNat_lt
  omega

theorem Seamless.landlocked {w : Walker} {pathCondition : PathCondition} {fpp : FindPathParams}
    (h : Seamless w pathCondition fpp) (hkeep : fpp.keepDistance = false) :
    Landlocked w pathCondition fpp := by
  intro dirList hwalks _
  refine h.inland ?_
  induction dirList using List.reverseRecOn with
  | nil => exact Or.inl rfl
  | append_singleton dirList direction _ =>
    have henters : ∀ pos ∈ replay w.position (dirList ++ [direction]),
        Enters w pathCondition fpp pos := hwalks.enters hkeep
    rw [replay_concat] at henters
    rw [goal_concat]
    exact Or.inr (henters _ (List.mem_append_right _ (List.mem_singleton.mpr rfl)))

/-- A creature at the west edge of the map, with a tile at the east edge. -/
def walkerAtEdge : Walker where
  position := { x := 0, y := 100, z := 7 }
  creatureTile := some 0
  getWalkCache := fun _ => 2
  getTile := fun pos =>
    if pos = { x := 0, y := 100, z := 7 } then some 0
    else if pos = { x := 65535, y := 100, z := 7 } then some 1
    else none
  queryAdd := fun _ => true
  getTopVisibleCreature := fun _ => false
  fieldHurts := fun _ => false

end OTServBR
