import Mathlib
import OTServBR.Lib.Run
import OTServBR.Lib.Sweep
import OTServBR.Map.Path

/-! # The walk cache

A creature keeps the walkability of the tiles around it in a window that moves
with it. A step shifts the window in place and looks only at the row and the
column that come into it. The rows that a diagonal step shifts sideways are
picked by the distance of the step, which has no sign, so a step to the south
leaves out the first row and shifts the last one once too often.
-/

namespace OTServBR

namespace Direction

def offset : Direction → ℤ × ℤ
  | NORTH => (0, -1)
  | EAST => (1, 0)
  | SOUTH => (0, 1)
  | WEST => (-1, 0)
  | SOUTHWEST => (-1, 1)
  | SOUTHEAST => (1, 1)
  | NORTHWEST => (-1, -1)
  | NORTHEAST => (1, -1)

/-- The coordinates of the next position fit into 16 bits. -/
def inMap (d : Direction) (pos : Position) : Prop :=
  0 ≤ (pos.x.toNat : ℤ) + d.offset.1 ∧ (pos.x.toNat : ℤ) + d.offset.1 < 2 ^ 16 ∧
    0 ≤ (pos.y.toNat : ℤ) + d.offset.2 ∧ (pos.y.toNat : ℤ) + d.offset.2 < 2 ^ 16

instance (d : Direction) (pos : Position) : Decidable (d.inMap pos) :=
  inferInstanceAs (Decidable (_ ∧ _ ∧ _ ∧ _))

end Direction

namespace WalkCache

def maxViewportX : ℕ := 11
def maxViewportY : ℕ := 11
def mapWalkWidth : ℕ := maxViewportX * 2 + 1
def mapWalkHeight : ℕ := maxViewportY * 2 + 1
def maxWalkCacheWidth : ℕ := (mapWalkWidth - 1) / 2
def maxWalkCacheHeight : ℕ := (mapWalkHeight - 1) / 2

/-- `localMapCache[y][x]` -/
abbrev Cache := ℕ → ℕ → Bool

structure Creature where
  position : Position
  isMapLoaded : Bool := false
  localMapCache : Cache := fun _ _ => false

/-- The offsets of the columns and of the rows, in the order of the loops. -/
def widths : List ℤ := (List.range mapWalkWidth).map fun x : ℕ => (x : ℤ) - maxWalkCacheWidth
def heights : List ℤ := (List.range mapWalkHeight).map fun y : ℕ => (y : ℤ) - maxWalkCacheHeight

namespace Cache

variable (cache : Cache)

def updateTileCache (tile : Bool) (dx dy : ℤ) : Cache :=
  if dx.natAbs ≤ maxWalkCacheWidth ∧ dy.natAbs ≤ maxWalkCacheHeight then
    let y := (maxWalkCacheHeight + dy).toNat
    Function.update cache y
      (Function.update (cache y) (maxWalkCacheWidth + dx).toNat tile)
  else cache

/-- The cells at some offsets are written one after the other. -/
def refresh (tile : ℤ → ℤ → Bool) (offsets : List (ℤ × ℤ)) : Cache :=
  offsets.foldl (fun cache d => cache.updateTileCache (tile d.1 d.2) d.1 d.2) cache

/-- Shift y south; a row is copied as a whole. -/
def shiftSouth : Cache := Sweep.shiftUp (mapWalkHeight - 1) cache

def shiftNorth : Cache := Sweep.shiftDown (mapWalkHeight - 1) cache

/-- The rows of a loop over y; `dy` is the distance of the step. -/
def shiftRows (shift : (ℕ → Bool) → ℕ → Bool) (dy : ℤ) : Cache :=
  let starty := if dy < 0 then 0 else if 0 < dy then dy else 0
  let endy : ℤ := if dy < 0 then mapWalkHeight - 1 + dy else mapWalkHeight - 1
  Sweep.sweep id id (fun _ row => shift row) (List.range' starty.toNat (endy + 1 - starty).toNat)
    cache

def shiftWest (dy : ℤ) : Cache := cache.shiftRows (Sweep.shiftDown (mapWalkWidth - 1)) dy

def shiftEast (dy : ℤ) : Cache := cache.shiftRows (Sweep.shiftUp (mapWalkWidth - 1)) dy

end Cache

namespace Creature

-- there is a tile, and its `queryAdd` has no objection to the creature
variable (walkable : Position → Bool) (c : Creature)

/-- The tile that `getTile` finds at an offset, in 16 bits. -/
def getTile (dx dy : ℤ) : Bool := walkable (c.position.shift (dx, dy))

/-- `updateTileCache` of a tile at a position. -/
def updateTileCache (tile : Bool) (pos : Position) : Creature :=
  if pos.z = c.position.z then
    { c with
      localMapCache := c.localMapCache.updateTileCache tile
        ((pos.x.toNat : ℤ) - c.position.x.toNat) ((pos.y.toNat : ℤ) - c.position.y.toNat) }
  else c

def updateMapCache : Creature :=
  (heights.flatMap fun y => widths.map fun x => (x, y)).foldl
    (fun c d => c.updateTileCache (c.getTile walkable d.1 d.2) (c.position.shift d)) c

/-- A creature that appears. -/
def onCreatureAppear : Creature := { c with isMapLoaded := true }.updateMapCache walkable

def refresh (offsets : List (ℤ × ℤ)) : Creature :=
  { c with localMapCache := c.localMapCache.refresh (c.getTile walkable) offsets }

/-- The vertical part of a step. -/
def moveRows (oldPos newPos : Position) : Creature :=
  if newPos.y < oldPos.y then
    { c with localMapCache := c.localMapCache.shiftSouth }.refresh walkable
      (widths.map fun x => (x, -(maxWalkCacheHeight : ℤ)))
  else if oldPos.y < newPos.y then
    { c with localMapCache := c.localMapCache.shiftNorth }.refresh walkable
      (widths.map fun x => (x, (maxWalkCacheHeight : ℤ)))
  else c

/-- The horizontal part of a step. -/
def moveColumns (oldPos newPos : Position) : Creature :=
  let dy : ℤ := oldPos.getDistanceY newPos
  if oldPos.x < newPos.x then
    { c with localMapCache := c.localMapCache.shiftWest dy }.refresh walkable
      (heights.map fun y => ((maxWalkCacheWidth : ℤ), y))
  else if newPos.x < oldPos.x then
    { c with localMapCache := c.localMapCache.shiftEast dy }.refresh walkable
      (heights.map fun y => (-(maxWalkCacheWidth : ℤ), y))
  else c

/-- What the creature does with the cache once it stands on the new position. -/
def onCreatureMove (newPos oldPos : Position) (teleport : Bool) : Creature :=
  if !c.isMapLoaded then c
  else if teleport || oldPos.z ≠ newPos.z then c.updateMapCache walkable
  else
    ((c.moveRows walkable oldPos newPos).moveColumns walkable oldPos newPos).updateTileCache
      (walkable oldPos) oldPos

/-- Creatures that use no cache are not modelled. -/
def getWalkCache (pos : Position) : ℤ :=
  if c.position.z ≠ pos.z then 0
  else if pos = c.position then 1
  else
    let dx : ℤ := (pos.x.toNat : ℤ) - c.position.x.toNat
    let dy : ℤ := (pos.y.toNat : ℤ) - c.position.y.toNat
    if dx.natAbs ≤ maxWalkCacheWidth ∧ dy.natAbs ≤ maxWalkCacheHeight then
      if c.localMapCache (maxWalkCacheHeight + dy).toNat (maxWalkCacheWidth + dx).toNat then 1
      else 0
    else 2

/-- One step of the creature on its floor. Beyond the edge of the map there is no tile to step
on. -/
def walk (d : Direction) : Creature :=
  if d.inMap c.position then
    let newPos := getNextPosition d c.position
    { c with position := newPos }.onCreatureMove walkable newPos c.position false
  else c

end Creature

end WalkCache

end OTServBR
