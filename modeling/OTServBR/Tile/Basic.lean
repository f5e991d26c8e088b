import Mathlib
import OTServBR.Item.Basic

/-! # Tiles

A tile has a ground, a vector of items and its creatures. The vector keeps the
items that are not always on top in front, counted by hand, and the others
behind them, while things are indexed in the order ground, top items,
creatures, down items. Features of the items are cached in flags.
-/

namespace OTServBR

/-- An item object with its address. -/
structure TileItem where
  ref : ℕ
  item : Item
  deriving DecidableEq, Repr

inductive Thing
  | creature (id : ℕ)
  | item (i : TileItem)
  deriving DecidableEq, Repr

namespace Thing

/-- The object a pointer points to: a creature or an item. -/
def address : Thing → ℕ ⊕ ℕ
  | creature id => .inl id
  | item i => .inr i.ref

def getItem : Thing → Option TileItem
  | creature _ => none
  | item i => some i

end Thing

/-- `tileflags_t`. -/
abbrev TileFlags := BitVec 32

namespace TileState

def floorChange : TileFlags := 0x7F
def teleport : TileFlags := 1#32 <<< 11
def magicField : TileFlags := 1#32 <<< 12
def mailbox : TileFlags := 1#32 <<< 13
def trashHolder : TileFlags := 1#32 <<< 14
def bed : TileFlags := 1#32 <<< 15
def depot : TileFlags := 1#32 <<< 16
def blockSolid : TileFlags := 1#32 <<< 17
def blockPath : TileFlags := 1#32 <<< 18
def immovableBlockSolid : TileFlags := 1#32 <<< 19
def immovableBlockPath : TileFlags := 1#32 <<< 20
def immovableNoFieldBlockPath : TileFlags := 1#32 <<< 21
def noFieldBlockPath : TileFlags := 1#32 <<< 22
def supportsHangable : TileFlags := 1#32 <<< 23

end TileState

/-! ## The item vector -/

structure TileItemVector where
  items : List TileItem := []
  downItemCount : ℕ := 0
  deriving DecidableEq, Repr

namespace TileItemVector

variable (v : TileItemVector)

def size : ℕ := v.items.length
def downItems : List TileItem := v.items.take v.downItemCount
def topItems : List TileItem := v.items.drop v.downItemCount
def getTopItemCount : ℕ := v.items.length - v.downItemCount

/-- `insert(getBeginDownItem(), item)` and `increaseDownItemCount()`. -/
def insertDown (i : TileItem) : TileItemVector where
  items := i :: v.items
  downItemCount := v.downItemCount + 1

/-- Put an item before the first one that meets a test, or at the end. -/
def insertBefore (p : TileItem → Bool) (i : TileItem) : List TileItem → List TileItem
  | [] => [i]
  | j :: l => if p j then i :: j :: l else j :: insertBefore p i l

/-- The loops over the top items that look for the place of a new one. -/
def insertTop (p : TileItem → Bool) (i : TileItem) : TileItemVector :=
  { v with items := v.downItems ++ insertBefore p i v.topItems }

def eraseTop (ref : ℕ) : TileItemVector :=
  { v with items := v.downItems ++ v.topItems.eraseP (·.ref == ref) }

/-- `erase(it)` and `decreaseDownItemCount()`. -/
def eraseDown (ref : ℕ) : TileItemVector where
  items := v.downItems.eraseP (·.ref == ref) ++ v.topItems
  downItemCount := v.downItemCount - 1

/-- Change an item through its pointer. -/
def modify (ref : ℕ) (f : Item → Item) : TileItemVector :=
  { v with items := v.items.map fun i => if i.ref == ref then { i with item := f i.item } else i }

end TileItemVector

structure Tile where
  ground : Option TileItem := none
  items : TileItemVector := {}
  creatures : List ℕ := []
  flags : TileFlags := 0
  deriving DecidableEq, Repr

namespace Tile

variable (types : Items) (t : Tile)

/-- The ground and the items of the vector. -/
def allItems : List TileItem := t.ground.toList ++ t.items.items

/-! ## Flags -/

def hasFlag (flag flags : TileFlags) : Bool := flags &&& flag != 0

def setFlagIf (c : Bool) (flag flags : TileFlags) : TileFlags := if c then flags ||| flag else flags

def resetFlagIf (c : Bool) (flag flags : TileFlags) : TileFlags :=
  if c then flags &&& ~~~ flag else flags

/-- `hasProperty(exclude, prop)`. -/
def hasProperty (exclude : ℕ) (prop : ItemProperty) : Bool :=
  t.allItems.any fun i => i.ref != exclude && i.item.hasProperty types prop

/-- The flags after `setTileFlags`. -/
def setTileFlags (i : Item) (flags : TileFlags) : TileFlags :=
  let it := i.getType types
  let flags := setFlagIf (!hasFlag TileState.floorChange flags && it.floorChange != 0)
    (it.floorChange.toBitVec.setWidth 32) flags
  let flags := setFlagIf (i.hasProperty types .immovableBlockSolid)
    TileState.immovableBlockSolid flags
  let flags := setFlagIf (i.hasProperty types .blockPath) TileState.blockPath flags
  let flags := setFlagIf (i.hasProperty types .noFieldBlockPath) TileState.noFieldBlockPath flags
  let flags := setFlagIf (i.hasProperty types .immovableNoFieldBlockPath)
    TileState.immovableNoFieldBlockPath flags
  let flags := setFlagIf (i.cls == .teleport) TileState.teleport flags
  let flags := setFlagIf (i.cls == .magicField) TileState.magicField flags
  let flags := setFlagIf (i.cls == .mailbox) TileState.mailbox flags
  let flags := setFlagIf (i.cls == .trashHolder) TileState.trashHolder flags
  let flags := setFlagIf (i.hasProperty types .blockSolid) TileState.blockSolid flags
  let flags := setFlagIf (i.cls == .bed) TileState.bed flags
  let flags := setFlagIf (i.cls == .depotLocker) TileState.depot flags
  setFlagIf (i.hasProperty types .supportHangable) TileState.supportsHangable flags

/-- The flags after `resetTileFlags`, where `others` are the properties of the other items. Only
the flags of blocking properties ask for them. -/
def resetTileFlags (i : Item) (others : ItemProperty → Bool) (flags : TileFlags) : TileFlags :=
  let it := i.getType types
  let lost := fun prop => i.hasProperty types prop && !others prop
  let flags := resetFlagIf (it.floorChange != 0) TileState.floorChange flags
  let flags := resetFlagIf (lost .blockSolid) TileState.blockSolid flags
  let flags := resetFlagIf (lost .immovableBlockSolid) TileState.immovableBlockSolid flags
  let flags := resetFlagIf (lost .blockPath) TileState.blockPath flags
  let flags := resetFlagIf (lost .noFieldBlockPath) TileState.noFieldBlockPath flags
  let flags := resetFlagIf (lost .immovableBlockPath) TileState.immovableBlockPath flags
  let flags := resetFlagIf (lost .immovableNoFieldBlockPath)
    TileState.immovableNoFieldBlockPath flags
  let flags := resetFlagIf (i.cls == .teleport) TileState.teleport flags
  let flags := resetFlagIf (i.cls == .magicField) TileState.magicField flags
  let flags := resetFlagIf (i.cls == .mailbox) TileState.mailbox flags
  let flags := resetFlagIf (i.cls == .trashHolder) TileState.trashHolder flags
  let flags := resetFlagIf (i.cls == .bed) TileState.bed flags
  let flags := resetFlagIf (i.cls == .depotLocker) TileState.depot flags
  resetFlagIf (i.hasProperty types .supportHangable) TileState.supportsHangable flags

/-- `setTileFlags`, which is all that `onAddTileItem` does to a tile. -/
def setFlagsOf (i : TileItem) : Tile := { t with flags := setTileFlags types i.item t.flags }

/-- `resetTileFlags`, which is all that `onRemoveTileItem` does to a tile. -/
def resetFlagsOf (i : TileItem) : Tile :=
  { t with flags := resetTileFlags types i.item (t.hasProperty types i.ref) t.flags }

/-! ## Indices -/

/-- A loop that counts up and stops at a thing: the count and whether it stopped. -/
def scan {α : Type} (p : α → Bool) : List α → ℤ → ℤ × Bool
  | [], n => (n, false)
  | a :: l, n => if p a then (n + 1, true) else scan p l (n + 1)

/-- The part of `getThingIndex` behind the ground. -/
def scanThings (thing : Thing) (n : ℤ) : ℤ :=
  match thing with
  | .creature id =>
    let r := scan (· == id) t.creatures (n + t.items.getTopItemCount)
    if r.2 then r.1 else -1
  | .item i =>
    if i.item.isAlwaysOnTop types then
      let r := scan (·.ref == i.ref) t.items.topItems n
      if r.2 then r.1 else -1
    else
      let r := scan (·.ref == i.ref) t.items.downItems
        (n + t.items.getTopItemCount + t.creatures.length)
      if r.2 then r.1 else -1

def getThingIndex (thing : Thing) : ℤ :=
  match t.ground with
  | some g => if thing.address = .inr g.ref then 0 else t.scanThings types thing 0
  | none => t.scanThings types thing (-1)

def getThingCount : ℕ := t.creatures.length + t.items.size + t.ground.toList.length

def getLastIndex : ℕ := t.getThingCount

/-- The part of `getThing` behind the ground. -/
def thingBehind (index : ℕ) : Option Thing :=
  let topItemSize := t.items.getTopItemCount
  if index < topItemSize then (t.items.items[t.items.downItemCount + index]?).map .item
  else
    let index := index - topItemSize
    if index < t.creatures.length then (t.creatures[index]?).map .creature
    else
      let index := index - t.creatures.length
      if index < t.items.downItemCount then (t.items.items[index]?).map .item else none

def getThing (index : ℕ) : Option Thing :=
  match t.ground with
  | some g => if index = 0 then some (.item g) else t.thingBehind (index - 1)
  | none => t.thingBehind index

/-! ## Operations -/

/-- The count of a stack that loses a part, computed with 32 bits. -/
def lowered (itemCount : ℕ) (count : UInt32) : ℕ :=
  (max 0 (UInt32.ofNat itemCount - count).toInt32).toInt.toNat

/-- `removeThing` of an item. A part of a stack only lowers its count. An index of an item that is
not the ground means that the search for it in its segment succeeds. -/
def removeItem (i : TileItem) (count : UInt32) : Tile :=
  if t.getThingIndex types (.item i) = -1 then t
  else if (t.ground.map (·.ref)) = some i.ref then { t with ground := none }.resetFlagsOf types i
  else
    let it := i.item.getType types
    if it.alwaysOnTop then { t with items := t.items.eraseTop i.ref }.resetFlagsOf types i
    else if it.stackable && count.toNat != i.item.getItemCount then
      { t with
        items := t.items.modify i.ref fun j => j.setItemCount (lowered j.getItemCount count) }
    else { t with items := t.items.eraseDown i.ref }.resetFlagsOf types i

def removeThing (thing : Thing) (count : UInt32) : Tile :=
  match thing with
  | .creature id => { t with creatures := t.creatures.erase id }
  | .item i => t.removeItem types i count

/-- The ground is replaced without a search in the vector. -/
def addGround (i : TileItem) : Tile :=
  match t.ground with
  | none => { t with ground := some i }.setFlagsOf types i
  | some oldGround =>
    ({ t with ground := some i }.resetFlagsOf types oldGround).setFlagsOf types i

/-- Remove the old splash if there is one. -/
def removeSplash : Tile :=
  match t.items.topItems.find? fun j => (j.item.getType types).isSplash with
  | some oldSplash => t.removeItem types oldSplash 1
  | none => t

def addTop (i : TileItem) : Tile :=
  let it := i.item.getType types
  let t := if it.isSplash then t.removeSplash types else t
  { t with
    items := t.items.insertTop
      (fun j => it.alwaysOnTopOrder ≤ (j.item.getType types).alwaysOnTopOrder) i }.setFlagsOf types i

/-- A magic field takes the place of an old one, unless that one cannot be replaced. -/
def addDown (i : TileItem) : Tile :=
  let insert := fun t : Tile => { t with items := t.items.insertDown i }.setFlagsOf types i
  if (i.item.getType types).isMagicField then
    match t.items.downItems.find? fun j => j.item.cls == .magicField with
    | some oldField =>
      if (oldField.item.getType types).replaceable then insert (t.removeItem types oldField 1)
      else t
    | none => insert t
  else insert t

def addThing (thing : Thing) : Tile :=
  match thing with
  | .creature id => { t with creatures := id :: t.creatures }
  | .item i =>
    let it := i.item.getType types
    if 0xFFFF ≤ t.items.size then t
    else if it.isGroundTile then t.addGround types i
    else if it.alwaysOnTop then t.addTop types i
    else t.addDown types i

def internalAddThing (thing : Thing) : Tile :=
  match thing with
  | .creature id => { t with creatures := id :: t.creatures }
  | .item i =>
    let it := i.item.getType types
    if it.isGroundTile then
      match t.ground with
      | none => { t with ground := some i }.setFlagsOf types i
      | some _ => t
    else if 0xFFFF ≤ t.items.size then t
    else if it.alwaysOnTop then
      { t with
        items := t.items.insertTop
          (fun j => it.alwaysOnTopOrder < (j.item.getType types).alwaysOnTopOrder)
          i }.setFlagsOf types i
    else { t with items := t.items.insertDown i }.setFlagsOf types i

/-- Change an item of the tile through its pointer. -/
def modifyItem (ref : ℕ) (f : Item → Item) : Tile :=
  { t with
    ground := t.ground.map fun g => if g.ref == ref then { g with item := f g.item } else g
    items := t.items.modify ref f }

/-- Give an item another id and count. -/
def updated (itemId : UInt16) (count : UInt32) (i : Item) : Item :=
  (i.setID types itemId).setSubType types count.toUInt16

def updateThing (thing : Thing) (itemId : UInt16) (count : UInt32) : Tile :=
  match thing with
  | .creature _ => t
  | .item i =>
    if t.getThingIndex types thing = -1 then t
    else
      ((t.resetFlagsOf types i).modifyItem i.ref (updated types itemId count)).setFlagsOf types
        { i with item := updated types itemId count i.item }

/-- The position in the vector that an index of `replaceThing` reaches, behind the ground. -/
def replacePosition (pos : ℕ) : Option ℕ :=
  let topItemSize := t.items.getTopItemCount
  if pos < topItemSize then some (t.items.downItemCount + pos)
  else
    let pos := pos - topItemSize
    if pos < t.creatures.length then none
    else
      let pos := pos - t.creatures.length
      if pos < t.items.downItemCount then some pos else none

/-- Put an item at a position of the vector. -/
def replaceItem (pos : ℕ) (i : TileItem) : Tile :=
  match t.replacePosition pos with
  | none => t
  | some p =>
    match t.items.items[p]? with
    | none => t
    | some oldItem =>
      ({ t with items := { t.items with items := t.items.items.set p i } }.resetFlagsOf types
        oldItem).setFlagsOf types i

def replaceThing (index : ℕ) (thing : Thing) : Tile :=
  match thing with
  | .creature _ => t
  | .item i =>
    match t.ground with
    | some oldGround =>
      if index = 0 then
        ({ t with ground := some i }.resetFlagsOf types oldGround).setFlagsOf types i
      else t.replaceItem types (index - 1) i
    | none => t.replaceItem types index i

/-! ## Runs -/

inductive Op
  | addThing (thing : Thing)
  | internalAddThing (thing : Thing)
  | removeThing (thing : Thing) (count : UInt32)
  | updateThing (thing : Thing) (itemId : UInt16) (count : UInt32)
  | replaceThing (index : ℕ) (thing : Thing)
  deriving DecidableEq, Repr

def apply (t : Tile) : Op → Tile
  | .addThing thing => t.addThing types thing
  | .internalAddThing thing => t.internalAddThing types thing
  | .removeThing thing count => t.removeThing types thing count
  | .updateThing thing itemId count => t.updateThing types thing itemId count
  | .replaceThing index thing => t.replaceThing types index thing

/-- The things behind the ground in the order of their indices. -/
def thingsBehind : List Thing :=
  t.items.topItems.map .item ++ (t.creatures.map .creature ++ t.items.downItems.map .item)

/-- The things of a tile in the order of their indices. -/
def things : List Thing := t.ground.toList.map .item ++ t.thingsBehind

/-- What callers see to: a thing is added where it is not yet, a pointer to a thing of the tile
points to the object as it is, and an index to replace at is one of `getThingIndex`. -/
def Admissible (t : Tile) : Op → Prop
  | .addThing thing | .internalAddThing thing => thing.address ∉ t.things.map Thing.address
  | .removeThing thing _ | .updateThing thing _ _ =>
    thing.address ∈ t.things.map Thing.address → thing ∈ t.things
  | .replaceThing index thing =>
    index < 2 ^ 31 ∧ thing.address ∉ t.things.map Thing.address

instance (a : ℕ ⊕ ℕ) (l : List (ℕ ⊕ ℕ)) : Decidable (a ∈ l) :=
  @List.instDecidableMemOfLawfulBEq _ instBEqOfDecidableEq _ a l

instance (t : Tile) : ∀ op, Decidable (t.Admissible op)
  | .addThing _ | .internalAddThing _ => inferInstanceAs (Decidable (¬_))
  | .removeThing _ _ | .updateThing _ _ _ => inferInstanceAs (Decidable (_ → _))
  | .replaceThing _ _ => inferInstanceAs (Decidable (_ ∧ _))

/-- A run of operations, each of them admissible where it happens. -/
def Runs (ok : Tile → Op → Prop) : Tile → List Op → Prop
  | _, [] => True
  | t, op :: ops => ok t op ∧ Runs ok (t.apply types op) ops

def run (t : Tile) (ops : List Op) : Tile := ops.foldl (apply types) t

end Tile

end OTServBR
