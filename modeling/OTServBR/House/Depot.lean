import Mathlib
import OTServBR.Lib.Custody
import OTServBR.Tile.Flags

/-! # Clearing a house

When a house loses its owner its goods go to the inbox of that owner. One loop
over the tiles makes a list of items and turns furniture into kits on the way,
in the vector that it walks; a second loop moves the items of the list.
-/

namespace OTServBR

namespace Item

def setDefaultSubtype (types : Items) (i : Item) : Item :=
  let it := i.getType types
  let i := i.setItemCount 1
  if it.charges != 0 then
    if it.stackable then i.setItemCount it.charges.toNat else i.setCharges it.charges.toUInt16
  else i

def getCustomAttribute (i : Item) (key : Str) : Option CustomAttribute :=
  i.getAttributes.getCustomAttribute key

end Item

namespace Depot

/-! ## Furniture -/

/-- The entries of an item type that only furniture has. -/
structure FurnitureType where
  name : Str := []
  wrapable : Bool := false
  wrapableTo : Int32 := 0
  rotatable : Bool := false
  rotateTo : Int32 := 0

/-- The item that wrapped furniture becomes. -/
def decorationKit : UInt16 := 26054

/-- The kits and the pieces they are built into. -/
def constructionKits : List (UInt16 × UInt16) :=
  [(3901, 1666), (3902, 1670), (3903, 1652), (3904, 1674),
    (3905, 1658), (3906, 3813), (3907, 3817), (3908, 1619), (3909, 12799), (3910, 2105),
    (3911, 1614), (3912, 3806), (3913, 3807), (3914, 3809), (3915, 1716), (3916, 1724),
    (3917, 1732), (3918, 1775), (3919, 1774), (3920, 1750), (3921, 3832), (3922, 2095),
    (3923, 2098), (3924, 2064), (3925, 2582), (3926, 2117), (3927, 1728), (3928, 1442),
    (3929, 1446), (3930, 1447), (3931, 2034), (3932, 2604), (3933, 2080), (3934, 2084),
    (3935, 3821), (3936, 3811), (3937, 2101), (3938, 3812), (5086, 5046), (5087, 5055),
    (5088, 5056), (6114, 6111), (6115, 6109), (6372, 6356), (6373, 6371), (8692, 8688),
    (9974, 9975), (11124, 11125), (11126, 11127), (11133, 11129), (11205, 11203), (14328, 1616),
    (14329, 1615), (16075, 16020), (16099, 16098), (20254, 20295), (20255, 20297), (20257, 20299)]

section Furniture

variable (furniture : UInt16 → FurnitureType)

def isWrapable (id : UInt16) : Bool := (furniture id).wrapable && (furniture id).wrapableTo != 0

def isRotatable (id : UInt16) : Bool := (furniture id).rotatable && (furniture id).rotateTo != 0

/-- The loop over the rotations of a piece, with the number of rounds left and the rotation it has
come to. It gives up at the piece itself. -/
def rotatesTo (id base : UInt16) : ℕ → UInt16 → Bool
  | 0, _ => false
  | x + 1, newRotation =>
    if !(furniture newRotation).rotatable then false
    else
      let newRotation := (furniture newRotation).rotateTo.toUInt32.toUInt16
      if newRotation == id then false
      else if newRotation == base then true
      else rotatesTo id base x newRotation

/-- Whether a kit is built into a piece or into a rotation of it. -/
def fits (id : UInt16) (kit : UInt16 × UInt16) : Bool :=
  kit.2 == id || isRotatable furniture id && rotatesTo furniture id kit.2 5 id

end Furniture

/-- What furniture is turned into. -/
def kitIds : List UInt16 := decorationKit :: constructionKits.map (·.1)

/-- The type of a kit. -/
structure Plain (it : ItemType) (id : UInt16) : Prop where
  id : it.id = id
  group : it.group = .none
  type : it.type = .none
  charges : it.charges = 0
  stackable : it.stackable = false
  alwaysOnTop : it.alwaysOnTop = false
  moveable : it.moveable = true
  isHangable : it.isHangable = false

/-- The item table, with what it says of furniture: a type that is loaded has its own id, kits are
plain items that do not rotate, and no piece is made of two kits. -/
structure Catalogue where
  types : Items
  furniture : UInt16 → FurnitureType
  plain : ∀ id ∈ kitIds, Plain (types.getItemType id) id
  id_eq : ∀ id, (types.getItemType id).id = id ∨ (types.getItemType id).id = 0
  not_wrapable : isWrapable furniture decorationKit = false
  not_rotatable : ∀ kit ∈ constructionKits, isRotatable furniture kit.1 = false
  one_kit : ∀ id, constructionKits.Pairwise fun kit kit' =>
    fits furniture id kit = true → fits furniture id kit' = false

/-! ## Where items are -/

inductive Holder
  | tile (n : ℕ)
  | container (ref : ℕ)
  | inbox
  deriving DecidableEq, Repr

/-- The tiles of the map, what containers hold, the inbox of the owner and the parent of every
item. Objects get their addresses in order. -/
structure Estate where
  tiles : ℕ → Tile
  contents : ℕ → List TileItem
  inbox : List TileItem
  parent : ℕ → Option Holder
  next : ℕ

namespace Estate

variable (s : Estate)

def held : Holder → List TileItem
  | .tile n => (s.tiles n).allItems
  | .container ref => s.contents ref
  | .inbox => s.inbox

def custody : Custody Holder ℕ TileItem where
  held := s.held
  parent := s.parent

/-- Change a tile and tell the items that the change is about whether they are on it. -/
def setTile (n : ℕ) (t : Tile) (touched : List ℕ) : Estate :=
  { s with
    tiles := Function.update s.tiles n t
    parent := fun ref =>
      if ref ∈ touched then if ref ∈ t.allItems.map (·.ref) then some (.tile n) else none
      else s.parent ref }

/-- Change an item on a tile through its pointer. -/
def modifyItem (ref : ℕ) (f : Item → Item) : Estate :=
  match s.parent ref with
  | some (.tile n) => { s with tiles := Function.update s.tiles n ((s.tiles n).modifyItem ref f) }
  | _ => s

end Estate

/-- What the teleport of a tile does with an item that comes to the tile. -/
abbrev Teleports := ℕ → Estate → TileItem → Estate

section Walk

variable (c : Catalogue) (teleport : Teleports)

/-! ## An item that comes to a tile -/

def getTrashHolder (t : Tile) : Option TileItem :=
  if !Tile.hasFlag TileState.trashHolder t.flags then none
  else
    match t.ground.filter (·.item.cls == .trashHolder) with
    | some g => some g
    | none => t.items.items.reverse.find? (·.item.cls == .trashHolder)

def internalRemoveItem (s : Estate) (n : ℕ) (item : TileItem) : Estate :=
  let t := s.tiles n
  let count := item.item.getItemCount
  if t.getThingIndex c.types (.item item) == -1 || count == 0 || !item.item.cls.canRemove then s
  else s.setTile n (t.removeThing c.types (.item item) (UInt32.ofNat count)) [item.ref]

/-- `addThing` of a trash holder. -/
def discard (s : Estate) (n : ℕ) (holder item : TileItem) : Estate :=
  if item.ref == holder.ref || !(item.item.isMoveable c.types && !item.item.hasAttribute .uniqueId)
  then s
  else if item.item.isHangable c.types && (holder.item.getType c.types).isGroundTile &&
      Tile.hasFlag TileState.supportsHangable (s.tiles n).flags then s
  else internalRemoveItem c s n item

/-- A mailbox takes parcels and letters only, so it is left out. -/
def postAddNotification (s : Estate) (n : ℕ) (item : TileItem) : Estate :=
  let t := s.tiles n
  if Tile.hasFlag TileState.teleport t.flags then teleport n s item
  else
    match getTrashHolder t with
    | some holder => discard c s n holder item
    | none => s

/-! ## Turning an item into another one -/

/-- The tile when an item on it is given another id, and the object that has the id afterwards: an
item that leaves the top items is taken off and put back, one that keeps its kind is changed, and
in the place of any other one there is a new object. -/
def transformOnTile (t : Tile) (index : ℕ) (item : TileItem) (newId : UInt16) (next : ℕ) :
    Tile × Option TileItem :=
  let newType := c.types.getItemType newId
  let curType := item.item.getType c.types
  if curType.alwaysOnTop != newType.alwaysOnTop then
    let new := { item with item := item.item.setID c.types newId }
    let t := t.removeThing c.types (.item item) (UInt32.ofNat item.item.getItemCount)
    let t := t.addThing c.types (.item new)
    (t, if t.allItems.any (·.ref == item.ref) then some new else none)
  else if curType.type == newType.type then
    let currentDuration := item.item.getDuration
    let count := (item.item.getSubType c.types).toUInt32
    let i := if curType.id != newType.id && newType.group != curType.group then
      item.item.setDefaultSubtype c.types else item.item
    let itemId := if curType.id != newType.id then newId else item.item.id
    let t := (t.modifyItem item.ref fun _ => i).updateThing c.types (.item { item with item := i })
      itemId count
    let i := Tile.updated c.types itemId count i
    let i := if currentDuration != 0 then i.setDuration currentDuration.toInt32 else i
    (t.modifyItem item.ref fun _ => i, some { item with item := i })
  else
    match Item.createItem c.types newId with
    | none => (t, none)
    | some i => (t.replaceThing c.types index (.item ⟨next, i⟩), some ⟨next, i⟩)

/-- What `transformItem` returns, and the object that its argument points to afterwards. -/
structure Transformed where
  state : Estate
  newItem : Option TileItem
  item : TileItem

/-- Only items on tiles are transformed here. -/
def transformItem (s : Estate) (item : TileItem) (newId : UInt16) : Transformed :=
  if item.item.id == newId then ⟨s, some item, item⟩
  else
    match s.parent item.ref with
    | none => ⟨s, none, item⟩
    | some (.tile n) =>
      let t := s.tiles n
      let index := t.getThingIndex c.types (.item item)
      if index == -1 || (c.types.getItemType newId).id == 0 then ⟨s, some item, item⟩
      else
        match transformOnTile c t index.toNat item newId s.next with
        | (t, none) => ⟨s.setTile n t [item.ref], none, item⟩
        | (t, some new) =>
          let s := { s.setTile n t [item.ref, new.ref] with next := s.next + 1 }
          ⟨postAddNotification c teleport s n new, some new,
            if new.ref == item.ref then new else item⟩
    | some _ => ⟨s, some item, item⟩

/-! ## The list of items -/

/-- The state, and the pointers that are on the list so far. -/
structure Walk where
  state : Estate
  moveItemList : List (Option ℕ)

namespace Walk

def push (w : Walk) (refs : List (Option ℕ)) : Walk :=
  { w with moveItemList := w.moveItemList ++ refs }

/-- What a container holds goes on the list. -/
def pushContents (w : Walk) (item : TileItem) : Walk :=
  if item.item.cls.isContainer then w.push ((w.state.contents item.ref).map (some ·.ref)) else w

/-- Turn an item into another one that goes on the list. -/
def pushTransformed (w : Walk) (item : TileItem) (newId : UInt16) : Walk × TileItem :=
  let out := transformItem c teleport w.state item newId
  (Walk.push ⟨out.state, w.moveItemList⟩ [out.newItem.map (·.ref)], out.item)

end Walk

def unWrapId : Str := "unWrapId".toUTF8.toList

/-- Note on a wrapped item what it was. -/
def wrapped (itemName : Str) (itemID : UInt16) (newItem : Item) : Item :=
  (newItem.setCustomAttribute unWrapId (.integer itemID.toUInt64.toInt64)).setStrAttr .description
    ("Unwrap it in your own house to create a <".toUTF8.toList ++ itemName ++ ">.".toUTF8.toList)

def getName (i : Item) : Str :=
  if i.hasAttribute .name then i.getStrAttr .name else (c.furniture i.id).name

/-- The loop over the kits. A piece that fits is the last one looked at; after a rotation that fits
the loop goes on with the object that the pointer still points to. -/
def tryKits : List (UInt16 × UInt16) → Walk → TileItem → Walk
  | [], w, _ => w
  | kit :: kits, w, item =>
    if kit.2 == item.item.id then (w.pushTransformed c teleport item kit.1).1
    else if isRotatable c.furniture item.item.id &&
        rotatesTo c.furniture item.item.id kit.2 5 item.item.id then
      let out := w.pushTransformed c teleport item kit.1
      tryKits kits out.1 out.2
    else tryKits kits w item

/-- The loop body. There is no outcome when a null pointer is written through. -/
def collectItem (w : Walk) (item : TileItem) : Option Walk :=
  if isWrapable c.furniture item.item.id then
    let w := w.pushContents item
    let out := transformItem c teleport w.state item decorationKit
    out.newItem.map fun newItem =>
      Walk.push ⟨out.state.modifyItem newItem.ref (wrapped (getName c item.item) item.item.id),
        w.moveItemList⟩ [some newItem.ref]
  else if item.item.isPickupable c.types then some (w.push [some item.ref])
  else some (tryKits c teleport constructionKits (w.pushContents item) item)

/-- The rest of the loop over the items of a tile, with the number of rounds left and the position.
The end of the vector is read once; there is no outcome when the vector has become shorter and the
loop reads behind it. -/
def collectFrom (n : ℕ) : ℕ → ℕ → Walk → Option Walk
  | 0, _, w => some w
  | m + 1, k, w =>
    match (w.state.tiles n).items.items[k]? with
    | none => none
    | some item => (collectItem c teleport w item).bind (collectFrom n m (k + 1))

def collectTile (w : Walk) (n : ℕ) : Option Walk :=
  collectFrom c teleport n (w.state.tiles n).items.size 0 w

/-! ## Moving the items -/

/-- Take an item from what holds it. -/
def takeItem (s : Estate) (i : TileItem) : Holder → Estate
  | .tile n =>
    let count := UInt32.ofNat i.item.getItemCount
    s.setTile n ((s.tiles n).removeThing c.types (.item i) count) [i.ref]
  | .container ref =>
    { s with
      contents := Function.update s.contents ref ((s.contents ref).filter (·.ref != i.ref)) }
  | .inbox => { s with inbox := s.inbox.filter (·.ref != i.ref) }

/-- `internalMoveItem` to the inbox, which never refuses. A stack arrives as a copy of itself, which
keeps the address here. -/
def internalMoveItem (s : Estate) (fromCylinder : Holder) (ref : ℕ) : Estate :=
  match (s.held fromCylinder).find? (·.ref == ref) with
  | none => s
  | some i =>
    let s := takeItem c s i fromCylinder
    { s with inbox := i :: s.inbox, parent := Function.update s.parent ref (some .inbox) }

/-- There is no outcome when the item or its parent is a null pointer. -/
def moveToInbox (s : Estate) (item : Option ℕ) : Option Estate :=
  item.bind fun ref =>
    (s.parent ref).map fun fromCylinder => internalMoveItem c s fromCylinder ref

def transferToDepot (townId owner : UInt32) (houseTiles : List ℕ) (s : Estate) :
    Option (Bool × Estate) :=
  if townId == 0 || owner == 0 then some (false, s)
  else
    (houseTiles.foldlM (collectTile c teleport) ⟨s, []⟩).bind fun w =>
      (w.moveItemList.foldlM (moveToInbox c) w.state).map fun s => (true, s)

end Walk

end Depot

end OTServBR
