import Mathlib.Data.Finset.Basic
import Mathlib.Data.Finset.Lattice.Basic
import OTServBR.Item.Basic
import OTServBR.Lib.Bounded
import OTServBR.Lib.Trie

/-! # The map

The map is a quad tree over the upper thirteen bits of the coordinates. A leaf
covers eight by eight columns, keeps the creatures on them and links to the
leaves south and east of it. Creatures around a position are found by a walk
along these links.
-/

namespace OTServBR

/-- A node of the quad tree; leaves are held by their index. -/
abbrev QTreeNode := Trie (Fin 4) ℕ

def FLOOR_BITS : ℕ := 3
def FLOOR_SIZE : ℕ := 8
def MAP_MAX_LAYERS : ℕ := 16

namespace QTreeNode

/-- The child that the top bits of the coordinates choose. -/
def index (x y : UInt32) : Fin 4 :=
  match x &&& 0x8000 != 0, y &&& 0x8000 != 0 with
  | false, false => 0
  | true, false => 1
  | false, true => 2
  | true, true => 3

def getLeaf : QTreeNode → UInt32 → UInt32 → Option ℕ
  | .null, _, _ => none
  | .leaf i, _, _ => some i
  | .node child, x, y => getLeaf (child (index x y)) (x <<< 1) (y <<< 1)

/-- The tree with a leaf for the coordinates; a new leaf gets the index `fresh`. -/
def createLeaf (fresh : ℕ) : ℕ → QTreeNode → UInt32 → UInt32 → QTreeNode
  | level + 1, .node child, x, y =>
    let index := index x y
    let c := match child index with
      | .null => if level + 1 ≠ FLOOR_BITS then .node fun _ => .null else .leaf fresh
      | c => c
    .node (Function.update child index (createLeaf fresh level c (x * 2) (y * 2)))
  | _, t, _, _ => t

end QTreeNode

structure QTreeLeafNode where
  leafS : Option ℕ := none
  leafE : Option ℕ := none
  creature_list : List ℕ := []
  player_list : List ℕ := []
  deriving DecidableEq, Repr

/-- `*iter = back()` and `pop_back()` at the place of an element. -/
def swapRemove (c : ℕ) (l : List ℕ) : List ℕ :=
  match l.getLast? with
  | none => l
  | some back => (l.set (l.idxOf c) back).dropLast

namespace QTreeLeafNode

variable (leaf : QTreeLeafNode) (c : ℕ) (isPlayer : Bool)

def addCreature : QTreeLeafNode :=
  { leaf with
    creature_list := leaf.creature_list ++ [c]
    player_list := if isPlayer then leaf.player_list ++ [c] else leaf.player_list }

def removeCreature : QTreeLeafNode :=
  { leaf with
    creature_list := swapRemove c leaf.creature_list
    player_list := if isPlayer then swapRemove c leaf.player_list else leaf.player_list }

end QTreeLeafNode

structure Map where
  root : QTreeNode := .node fun _ => .null
  leaves : List QTreeLeafNode := []
  /-- The creatures that were placed and not removed. -/
  creatures : Finset ℕ := ∅
  /-- What `getPosition` of a creature returns. -/
  position : ℕ → Position := fun _ => {}

namespace Map

variable (m : Map)

def leaf (i : ℕ) : QTreeLeafNode := m.leaves.getD i {}

def modifyLeaf (i : ℕ) (f : QTreeLeafNode → QTreeLeafNode) : Map :=
  { m with leaves := m.leaves.modify i f }

/-- `root.getLeaf` and `getLeafStatic`. -/
def getLeaf (x y : UInt32) : Option ℕ := m.root.getLeaf x y

def getQTNode (pos : Position) : Option ℕ := m.getLeaf pos.x.toUInt32 pos.y.toUInt32

/-- Change a leaf if there is one. -/
def modifyLeaf? (i : Option ℕ) (f : QTreeLeafNode → QTreeLeafNode) : Map :=
  match i with
  | none => m
  | some i => m.modifyLeaf i f

/-- `setTile`, as far as the tree is concerned. -/
def setTile (x y : UInt16) (z : UInt8) : Map :=
  if MAP_MAX_LAYERS ≤ z.toNat then m
  else
    let x := x.toUInt32
    let y := y.toUInt32
    let fresh := m.leaves.length
    let newLeaf := (m.getLeaf x y).isNone
    let m := { m with root := m.root.createLeaf fresh 15 x y }
    if newLeaf then
      let m := { m with leaves := m.leaves ++ [({} : QTreeLeafNode)] }
      let m := m.modifyLeaf? (m.getLeaf x (y - 8)) fun north => { north with leafS := some fresh }
      let m := m.modifyLeaf? (m.getLeaf (x - 8) y) fun west => { west with leafE := some fresh }
      let m := m.modifyLeaf fresh fun leaf =>
        { leaf with leafS := (m.getLeaf x (y + 8)).or leaf.leafS }
      m.modifyLeaf fresh fun leaf => { leaf with leafE := (m.getLeaf (x + 8) y).or leaf.leafE }
    else m

variable (isPlayer : ℕ → Bool)

/-- `addCreature` of the leaf at a position, for a creature that is not on the map yet. -/
def placeCreature (c : ℕ) (pos : Position) : Map :=
  match m.getQTNode pos with
  | none => m
  | some leaf =>
    if c ∈ m.creatures then m
    else
      { m.modifyLeaf leaf (·.addCreature c (isPlayer c)) with
        creatures := insert c m.creatures
        position := Function.update m.position c pos }

/-- The part of `moveCreature` that switches the leaf. -/
def moveCreature (c : ℕ) (newPos : Position) : Map :=
  match m.getQTNode (m.position c), m.getQTNode newPos with
  | some leaf, some new_leaf =>
    if c ∈ m.creatures then
      let m := if leaf ≠ new_leaf then
          (m.modifyLeaf leaf (·.removeCreature c (isPlayer c))).modifyLeaf new_leaf
            (·.addCreature c (isPlayer c))
        else m
      { m with position := Function.update m.position c newPos }
    else m
  | _, _ => m

/-- `removeCreature` of the leaf at the position of a creature. -/
def removeCreature (c : ℕ) : Map :=
  match m.getQTNode (m.position c) with
  | none => m
  | some leaf =>
    if c ∈ m.creatures then
      { m.modifyLeaf leaf (·.removeCreature c (isPlayer c)) with
        creatures := m.creatures.erase c }
    else m

inductive Op
  | setTile (x y : UInt16) (z : UInt8)
  | placeCreature (c : ℕ) (pos : Position)
  | moveCreature (c : ℕ) (newPos : Position)
  | removeCreature (c : ℕ)
  deriving DecidableEq, Repr

def apply (m : Map) : Op → Map
  | .setTile x y z => m.setTile x y z
  | .placeCreature c pos => m.placeCreature isPlayer c pos
  | .moveCreature c newPos => m.moveCreature isPlayer c newPos
  | .removeCreature c => m.removeCreature isPlayer c

/-- The map after a sequence of operations on the empty one. -/
def build (ops : List Op) : Map := ops.foldl (apply isPlayer) {}

end Map

/-! ## Spectators -/

/-- The ranges of a scan, relative to its centre in `x` and `y`. -/
structure Ranges where
  minRangeX : Int32
  maxRangeX : Int32
  minRangeY : Int32
  maxRangeY : Int32
  minRangeZ : Int32
  maxRangeZ : Int32
  deriving DecidableEq

namespace Ranges

variable (r : Ranges) (centerPos : Position)

def min_x : ℤ := centerPos.x.toNat + r.minRangeX.toInt
def max_x : ℤ := centerPos.x.toNat + r.maxRangeX.toInt
def min_y : ℤ := centerPos.y.toNat + r.minRangeY.toInt
def max_y : ℤ := centerPos.y.toNat + r.maxRangeY.toInt
def minoffset : ℤ := (Int32.ofInt (centerPos.z.toNat - r.maxRangeZ.toInt)).toInt
def maxoffset : ℤ := (Int32.ofInt (centerPos.z.toNat - r.minRangeZ.toInt)).toInt

/-- `std::min<uint32_t>(0xFFFF, std::max<int32_t>(0, v))`. -/
def clamp (v : ℤ) : ℕ := min 0xFFFF (max 0 (Int32.ofInt v).toInt).toNat

def x1 : ℕ := clamp (r.min_x centerPos + r.minoffset centerPos)
def y1 : ℕ := clamp (r.min_y centerPos + r.minoffset centerPos)
def x2 : ℕ := clamp (r.max_x centerPos + r.maxoffset centerPos)
def y2 : ℕ := clamp (r.max_y centerPos + r.maxoffset centerPos)

/-- The test of a creature at a position. -/
def accepts (cpos : Position) : Bool :=
  let offsetZ : ℤ := centerPos.z.toNat - cpos.z.toNat
  !(r.minRangeZ.toInt > cpos.z.toNat || r.maxRangeZ.toInt < cpos.z.toNat) &&
    !(r.min_y centerPos + offsetZ > cpos.y.toNat || r.max_y centerPos + offsetZ < cpos.y.toNat ||
      r.min_x centerPos + offsetZ > cpos.x.toNat || r.max_x centerPos + offsetZ < cpos.x.toNat)

end Ranges

namespace Map

variable (m : Map) (r : Ranges) (centerPos : Position) (onlyPlayers : Bool)

/-- Insert the creatures of a leaf that the test accepts. -/
def visit (leaf : Option ℕ) (spectators : Finset ℕ) : Finset ℕ :=
  match leaf with
  | none => spectators
  | some i =>
    let node_list := if onlyPlayers then (m.leaf i).player_list else (m.leaf i).creature_list
    spectators ∪ (node_list.filter fun c => r.accepts centerPos (m.position c)).toFinset

/-- The loop over `nx` for a number of leaves. -/
def scanRow (ny : ℕ) : ℕ → ℕ → Option ℕ → Finset ℕ → Finset ℕ
  | 0, _, _, spectators => spectators
  | n + 1, nx, leafE, spectators =>
    let next := match leafE with
      | some i => (m.leaf i).leafE
      | none => m.getLeaf (UInt32.ofNat (nx + FLOOR_SIZE)) (UInt32.ofNat ny)
    scanRow ny n (nx + FLOOR_SIZE) next (m.visit r centerPos onlyPlayers leafE spectators)

/-- The loop over `ny` for a number of rows of `width` leaves. -/
def scanRows (startx1 width : ℕ) : ℕ → ℕ → Option ℕ → Finset ℕ → Finset ℕ
  | 0, _, _, spectators => spectators
  | n + 1, ny, leafS, spectators =>
    let next := match leafS with
      | some i => (m.leaf i).leafS
      | none => m.getLeaf (UInt32.ofNat startx1) (UInt32.ofNat (ny + FLOOR_SIZE))
    scanRows startx1 width n (ny + FLOOR_SIZE) next
      (m.scanRow r centerPos onlyPlayers ny width startx1 leafS spectators)

/-- How often a loop from a start runs that takes steps of `FLOOR_SIZE` and includes the end. -/
def steps (start stop : ℕ) : ℕ := (stop + FLOOR_SIZE - start) / FLOOR_SIZE

def getSpectatorsInternal (spectators : Finset ℕ) : Finset ℕ :=
  let x1 := r.x1 centerPos
  let y1 := r.y1 centerPos
  let x2 := r.x2 centerPos
  let y2 := r.y2 centerPos
  let startx1 := x1 - x1 % FLOOR_SIZE
  let starty1 := y1 - y1 % FLOOR_SIZE
  let endx2 := x2 - x2 % FLOOR_SIZE
  let endy2 := y2 - y2 % FLOOR_SIZE
  m.scanRows r centerPos onlyPlayers startx1 (steps startx1 endx2) (steps starty1 endy2) starty1
    (m.getLeaf (UInt32.ofNat startx1) (UInt32.ofNat starty1)) spectators

end Map

end OTServBR
