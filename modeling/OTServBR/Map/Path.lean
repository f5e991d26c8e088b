import Mathlib
import OTServBR.Item.Basic

/-! # The path search

Paths are searched from the creature towards any position that satisfies a
condition. Nodes point to the node they were reached from, and the path is read
off these pointers at the end.
-/

namespace OTServBR

inductive Direction
  | NORTH
  | EAST
  | SOUTH
  | WEST
  | SOUTHWEST
  | SOUTHEAST
  | NORTHWEST
  | NORTHEAST
  deriving DecidableEq, Repr

namespace Direction

def isDiagonal : Direction → Bool
  | NORTH | EAST | SOUTH | WEST => false
  | _ => true

/-- The first three are the way on for a search without diagonals. -/
def dirNeighbors : Direction → List (ℤ × ℤ)
  | NORTH => [(-1, 0), (0, 1), (1, 0), (1, 1), (-1, 1)]
  | EAST => [(-1, 0), (0, 1), (0, -1), (-1, -1), (-1, 1)]
  | SOUTH => [(-1, 0), (1, 0), (0, -1), (-1, -1), (1, -1)]
  | WEST => [(0, 1), (1, 0), (0, -1), (1, -1), (1, 1)]
  | SOUTHWEST => [(1, 0), (0, -1), (-1, -1), (1, -1), (1, 1)]
  | SOUTHEAST => [(-1, 0), (0, -1), (-1, -1), (1, -1), (-1, 1)]
  | NORTHWEST => [(0, 1), (1, 0), (1, -1), (1, 1), (-1, 1)]
  | NORTHEAST => [(-1, 0), (0, 1), (-1, -1), (1, 1), (-1, 1)]

end Direction

def allNeighbors : List (ℤ × ℤ) :=
  [(-1, 0), (0, 1), (1, 0), (0, -1), (-1, -1), (1, -1), (1, 1), (-1, 1)]

namespace Position

/-- The position at an offset, in 16 bits. -/
def shift (pos : Position) (d : ℤ × ℤ) : Position :=
  { pos with
    x := UInt16.ofInt (pos.x.toNat + d.1)
    y := UInt16.ofInt (pos.y.toNat + d.2) }

theorem toNat_ofInt (z : ℤ) : ((UInt16.ofInt z).toNat : ℤ) = z % 2 ^ 16 := by
  rw [UInt16.ofInt, UInt16.toNat_ofNat']
  omega

theorem ofInt_toNat (u : UInt16) : UInt16.ofInt u.toNat = u := by
  have hu := u.toNat_lt
  have h := toNat_ofInt u.toNat
  exact UInt16.toNat_inj.mp (by omega)

def getDistanceX (p1 p2 : Position) : ℕ := ((p1.x.toNat : ℤ) - p2.x.toNat).natAbs
def getDistanceY (p1 p2 : Position) : ℕ := ((p1.y.toNat : ℤ) - p2.y.toNat).natAbs

end Position

def getNextPosition (direction : Direction) (pos : Position) : Position :=
  match direction with
  | .NORTH => { pos with y := pos.y - 1 }
  | .SOUTH => { pos with y := pos.y + 1 }
  | .WEST => { pos with x := pos.x - 1 }
  | .EAST => { pos with x := pos.x + 1 }
  | .SOUTHWEST => { pos with x := pos.x - 1, y := pos.y + 1 }
  | .NORTHWEST => { pos with x := pos.x - 1, y := pos.y - 1 }
  | .NORTHEAST => { pos with x := pos.x + 1, y := pos.y - 1 }
  | .SOUTHEAST => { pos with x := pos.x + 1, y := pos.y + 1 }

structure FindPathParams where
  fullPathSearch : Bool := true
  clearSight : Bool := true
  allowDiagonal : Bool := true
  keepDistance : Bool := false
  maxSearchDist : Int32 := 0
  minTargetDist : Int32 := -1
  maxTargetDist : Int32 := -1
  deriving DecidableEq

/-- A condition on positions; a call may change the best match so far. -/
structure PathCondition where
  call : Position → Position → FindPathParams → ℤ → Bool × ℤ
  isInRange : Position → Position → FindPathParams → Bool

/-- A creature and what the map says about its ways. -/
structure Walker where
  position : Position
  /-- The tile that the creature stands on. -/
  creatureTile : Option ℕ
  getWalkCache : Position → ℤ
  getTile : Position → Option ℕ
  /-- `queryAdd` of a tile has no objection. -/
  queryAdd : ℕ → Bool
  /-- A tile with a creature that the walker sees. -/
  getTopVisibleCreature : ℕ → Bool
  /-- A tile with a field that the walker can not walk on. -/
  fieldHurts : ℕ → Bool

def MAX_NODES : ℕ := 512
def MAP_NORMALWALKCOST : ℕ := 10
def MAP_DIAGONALWALKCOST : ℕ := 25

namespace Walker

variable (w : Walker)

def canWalkTo (pos : Position) : Option ℕ :=
  let walkCache := w.getWalkCache pos
  if walkCache = 0 then none
  else if walkCache = 1 then w.getTile pos
  else
    let tile := w.getTile pos
    if w.creatureTile ≠ tile then
      match tile with
      | none => none
      | some t => if w.queryAdd t then some t else none
    else tile

def getTileWalkCost (tile : Option ℕ) : ℕ :=
  match tile with
  | none => 0
  | some t =>
    (if w.getTopVisibleCreature t then MAP_NORMALWALKCOST * 3 else 0) +
      if w.fieldHurts t then MAP_NORMALWALKCOST * 18 else 0

end Walker

structure AStarNode where
  parent : Option ℕ := none
  f : ℕ := 0
  x : UInt16
  y : UInt16
  deriving DecidableEq

/-- The nodes by index, the start first. -/
structure AStarNodes where
  nodes : List AStarNode
  openNodes : ℕ → Bool
  nodeTable : UInt32 → Option ℕ
  closedNodes : ℤ

namespace AStarNodes

def key (x y : UInt16) : UInt32 := x.toUInt32 <<< 16 ||| y.toUInt32

def start (x y : UInt16) : AStarNodes where
  nodes := [{ x := x, y := y }]
  openNodes := Function.update (fun _ => false) 0 true
  nodeTable := Function.update (fun _ => none) (key x y) (some 0)
  closedNodes := 0

variable (a : AStarNodes)

def createOpenNode (parent : ℕ) (x y : UInt16) (f : ℕ) : Option AStarNodes :=
  let curNode := a.nodes.length
  if MAX_NODES ≤ curNode then none
  else some
    { a with
      nodes := a.nodes ++ [{ parent := some parent, f := f, x := x, y := y }]
      openNodes := Function.update a.openNodes curNode true
      nodeTable := Function.update a.nodeTable (key x y) (some curNode) }

/-- The first of the open nodes with the least `f`. -/
def getBestNode : Option ℕ :=
  (List.range a.nodes.length).foldl
    (fun best i =>
      match a.nodes[i]? with
      | none => best
      | some node =>
        let best_node_f := match best with
          | none => 2147483647
          | some j => (a.nodes[j]?.map AStarNode.f).getD 0
        if a.openNodes i && node.f < best_node_f then some i else best)
    none

def closeNode (index : ℕ) : AStarNodes :=
  { a with
    openNodes := Function.update a.openNodes index false
    closedNodes := a.closedNodes + 1 }

def openNode (index : ℕ) : AStarNodes :=
  if a.openNodes index then a
  else
    { a with
      openNodes := Function.update a.openNodes index true
      closedNodes := a.closedNodes - 1 }

def getNodeByPosition (x y : UInt16) : Option ℕ := a.nodeTable (key x y)

def getMapWalkCost (node : AStarNode) (neighborPos : Position) : ℕ :=
  if ((node.x.toNat : ℤ) - neighborPos.x.toNat).natAbs =
      ((node.y.toNat : ℤ) - neighborPos.y.toNat).natAbs then MAP_DIAGONALWALKCOST
  else MAP_NORMALWALKCOST

end AStarNodes

/-! ## The search -/

section Search
variable (w : Walker) (pathCondition : PathCondition) (fpp : FindPathParams)

/-- The offsets that are tried from a node, by the direction it was reached in. -/
def neighbors (parent : Option AStarNode) (node : AStarNode) : List (ℤ × ℤ) :=
  match parent with
  | none => allNeighbors
  | some parent =>
    let offset_x : ℤ := parent.x.toNat - node.x.toNat
    let offset_y : ℤ := parent.y.toNat - node.y.toNat
    let direction : Direction :=
      if offset_y = 0 then
        if offset_x = -1 then .WEST else .EAST
      else if !fpp.allowDiagonal || offset_x = 0 then
        if offset_y = -1 then .NORTH else .SOUTH
      else if offset_y = -1 then
        if offset_x = -1 then .NORTHWEST else .NORTHEAST
      else if offset_x = -1 then .SOUTHWEST else .SOUTHEAST
    direction.dirNeighbors.take (if fpp.allowDiagonal then 5 else 3)

/-- The tests before a neighbour is looked up. -/
def inSearchRange (pos : Position) : Bool :=
  !(fpp.maxSearchDist != 0 &&
      (w.position.getDistanceX pos > fpp.maxSearchDist.toInt ||
        w.position.getDistanceY pos > fpp.maxSearchDist.toInt)) &&
    !(fpp.keepDistance && !pathCondition.isInRange w.position pos fpp)

/-- One neighbour of a node; `none` when there is no room for it. -/
def visitNeighbor (n : ℕ) (node : AStarNode) (nodes : AStarNodes) (offset : ℤ × ℤ) :
    Option AStarNodes :=
  let pos := ({ w.position with x := node.x, y := node.y } : Position).shift offset
  if !inSearchRange w pathCondition fpp pos then some nodes
  else
    match nodes.getNodeByPosition pos.x pos.y with
    | some neighborNode =>
      let cost := AStarNodes.getMapWalkCost node pos
      let extraCost := w.getTileWalkCost (w.getTile pos)
      let newf := node.f + cost + extraCost
      match nodes.nodes[neighborNode]? with
      | none => some nodes
      | some neighbor =>
        if neighbor.f ≤ newf then some nodes
        else
          some (({ nodes with
            nodes := nodes.nodes.set neighborNode { neighbor with f := newf, parent := some n } } :
              AStarNodes).openNode neighborNode)
    | none =>
      match w.canWalkTo pos with
      | none => some nodes
      | some tile =>
        let cost := AStarNodes.getMapWalkCost node pos
        let extraCost := w.getTileWalkCost (some tile)
        nodes.createOpenNode n pos.x pos.y (node.f + cost + extraCost)

/-- The loop over the neighbours; without room it ends early if a position was found. -/
def visitNeighbors (found : Bool) (n : ℕ) (node : AStarNode) :
    List (ℤ × ℤ) → AStarNodes → Option AStarNodes
  | [], nodes => some nodes
  | offset :: offsets, nodes =>
    match visitNeighbor w pathCondition fpp n node nodes offset with
    | some nodes => visitNeighbors found n node offsets nodes
    | none => if found then some nodes else none

structure SearchState where
  nodes : AStarNodes
  bestMatch : ℤ := 0
  /-- The node that was found and its position. -/
  found : Option (ℕ × Position) := none

inductive SearchStep
  | fail
  | stop (s : SearchState)
  | next (s : SearchState)

/-- The body of the loop for the best node. -/
def searchNode (s : SearchState) (n : ℕ) (node : AStarNode) : SearchStep :=
  let pos : Position := { w.position with x := node.x, y := node.y }
  let (held, bestMatch) := pathCondition.call w.position pos fpp s.bestMatch
  let found := if held then some (n, pos) else s.found
  let s := { s with bestMatch := bestMatch, found := found }
  if held && bestMatch = 0 then .stop s
  else
    let parent := node.parent.bind fun p => s.nodes.nodes[p]?
    match visitNeighbors w pathCondition fpp found.isSome n node (neighbors fpp parent node)
        s.nodes with
    | none => .fail
    | some nodes => .next { s with nodes := nodes.closeNode n }

def searchStep (s : SearchState) : SearchStep :=
  if fpp.maxSearchDist ≠ 0 ∨ s.nodes.closedNodes < 100 then
    match s.nodes.getBestNode with
    | none => if s.found.isSome then .stop s else .fail
    | some n =>
      match s.nodes.nodes[n]? with
      | none => .fail
      | some node => searchNode w pathCondition fpp s n node
  else .stop s

/-- The loop, for a number of rounds; `none` when these do not suffice. -/
def search : ℕ → SearchState → Option SearchStep
  | 0, _ => none
  | fuel + 1, s =>
    match searchStep w pathCondition fpp s with
    | .next s => search fuel s
    | last => some last

end Search

/-- The direction of a step, from the offset back. -/
def direction? (dx dy : ℤ) : Option Direction :=
  if dx = 1 ∧ dy = 1 then some .NORTHWEST
  else if dx = -1 ∧ dy = 1 then some .NORTHEAST
  else if dx = 1 ∧ dy = -1 then some .SOUTHWEST
  else if dx = -1 ∧ dy = -1 then some .SOUTHEAST
  else if dx = 1 then some .WEST
  else if dx = -1 then some .EAST
  else if dy = 1 then some .NORTH
  else if dy = -1 then some .SOUTH
  else none

/-- The loop over the parents, for a number of them. -/
def traceBack (nodes : List AStarNode) : ℕ → UInt16 → UInt16 → Option ℕ → List Direction →
    List Direction
  | fuel + 1, prevx, prevy, some i, dirList =>
    match nodes[i]? with
    | none => dirList
    | some node =>
      let dx : ℤ := node.x.toNat - prevx.toNat
      let dy : ℤ := node.y.toNat - prevy.toNat
      let dirList := (direction? dx dy).toList ++ dirList
      traceBack nodes fuel node.x node.y node.parent dirList
  | _, _, _, _, dirList => dirList

/-- The directions when the search succeeds. Every parent has a smaller `f` than its
children, so that there are no more than `f` of them. -/
def getPathMatching (w : Walker) (dirList : List Direction) (pathCondition : PathCondition)
    (fpp : FindPathParams) (fuel : ℕ) : Option (List Direction) :=
  match search w pathCondition fpp fuel
      { nodes := AStarNodes.start w.position.x w.position.y } with
  | some (.stop s) =>
    match s.found with
    | none => none
    | some (n, endPos) =>
      match s.nodes.nodes[n]? with
      | none => none
      | some node =>
        some (traceBack s.nodes.nodes node.f endPos.x endPos.y node.parent dirList)
  | _ => none

end OTServBR
