import OTServBR.Item.ItemType
import OTServBR.Item.Attributes

/-! # Items

An item is an object of a class that its type chooses when it is created. It
carries an id, an 8-bit count and an optional block of attributes; a few
classes add members of their own that are stored with the item.
-/

namespace OTServBR

/-- The properties of an item that a tile keeps flags of. -/
inductive ItemProperty
  | blockSolid | blockPath | immovableBlockSolid | immovableBlockPath
  | immovableNoFieldBlockPath | noFieldBlockPath | supportHangable
  deriving DecidableEq, Repr

/-- The C++ class of an item object. `Item::CreateItem` picks one; depot chests, inboxes and
rewards are built by the player that owns them. -/
inductive ItemClass
  | item | container | depotLocker | rewardChest | teleport | magicField | door
  | trashHolder | mailbox | bed | depotChest | inbox | reward
  deriving DecidableEq, Repr

/-- Whether `getContainer` returns the object itself. -/
def ItemClass.isContainer : ItemClass → Bool
  | container | depotLocker | rewardChest | depotChest | inbox | reward => true
  | _ => false

/-- `canRemove` of the classes; a bed is one outside a house. -/
def ItemClass.canRemove : ItemClass → Bool
  | depotLocker | rewardChest | depotChest | inbox | reward => false
  | _ => true

structure Position where
  x : UInt16 := 0
  y : UInt16 := 0
  z : UInt8 := 0
  deriving DecidableEq, Repr

structure Item where
  cls : ItemClass
  id : UInt16
  count : UInt8 := 1
  attributes : Option ItemAttributes := none
  /-- Member of `DepotLocker`. -/
  depotId : UInt16 := 0
  /-- Member of `Teleport`. -/
  destPos : Position := {}
  /-- Members of `BedItem`. -/
  sleeperGUID : UInt32 := 0
  sleepStart : UInt64 := 0
  deriving DecidableEq, Repr

namespace Item

variable (types : Items) (i : Item)

/-- The attribute block, made empty where the item has none yet. -/
def getAttributes : ItemAttributes := i.attributes.getD {}

def hasAttribute (t : ItemAttrType) : Bool :=
  match i.attributes with
  | none => false
  | some a => a.hasAttribute t

def getStrAttr (t : ItemAttrType) : Str :=
  match i.attributes with
  | none => []
  | some a => a.getStrAttr t

def setStrAttr (t : ItemAttrType) (v : Str) : Item :=
  { i with attributes := some (i.getAttributes.setStrAttr t v) }

def getIntAttr (t : ItemAttrType) : Int32 :=
  match i.attributes with
  | none => 0
  | some a => (a.getIntAttr t).toInt32

def setIntAttr (t : ItemAttrType) (v : Int32) : Item :=
  { i with attributes := some (i.getAttributes.setIntAttr t v.toInt64) }

def removeAttribute (t : ItemAttrType) : Item :=
  { i with attributes := i.attributes.map (·.removeAttribute t) }

def setCustomAttribute (key : Str) (v : CustomAttribute) : Item :=
  { i with attributes := some (i.getAttributes.setCustomAttribute key v) }

def removeCustomAttribute (key : Str) : Item :=
  { i with attributes := some (i.getAttributes.removeCustomAttribute key) }

def increaseIntAttr (t : ItemAttrType) (v : Int32) : Item :=
  { i with attributes := some (i.getAttributes.increaseIntAttr t v.toInt64) }

def getType : ItemType := types.getItemType i.id

def isStackable : Bool := (i.getType types).stackable
def isMoveable : Bool := (i.getType types).moveable
def isPickupable : Bool := (i.getType types).isPickupable
def isHangable : Bool := (i.getType types).isHangable
def isBlocking : Bool := (i.getType types).blockSolid
def isMagicField : Bool := (i.getType types).isMagicField
def isAlwaysOnTop : Bool := (i.getType types).alwaysOnTop

/-- `hasProperty` of the class `Item`. -/
def hasProperty (prop : ItemProperty) : Bool :=
  let it := i.getType types
  match prop with
  | .blockSolid => it.blockSolid
  | .blockPath => it.blockPathFind
  | .immovableBlockSolid => it.blockSolid && (!it.moveable || i.hasAttribute .uniqueId)
  | .immovableBlockPath => it.blockPathFind && (!it.moveable || i.hasAttribute .uniqueId)
  | .immovableNoFieldBlockPath =>
    !it.isMagicField && it.blockPathFind && (!it.moveable || i.hasAttribute .uniqueId)
  | .noFieldBlockPath => !it.isMagicField && it.blockPathFind
  | .supportHangable => it.isHorizontal || it.isVertical

def getItemCount : ℕ := i.count.toNat

/-- The parameter of `setItemCount` is a `uint8_t`, so larger counts wrap. -/
def setItemCount (n : ℕ) : Item := { i with count := UInt8.ofNat n }

def getCharges : UInt16 := (i.getIntAttr .charges).toUInt32.toUInt16
def setCharges (n : UInt16) : Item := i.setIntAttr .charges n.toUInt32.toInt32
def getFluidType : UInt16 := (i.getIntAttr .fluidType).toUInt32.toUInt16
def setFluidType (n : UInt16) : Item := i.setIntAttr .fluidType n.toUInt32.toInt32
def getActionId : UInt16 := (i.getIntAttr .actionId).toUInt32.toUInt16

/-- Action ids below 100 are raised to 100. -/
def setActionId (n : UInt16) : Item :=
  i.setIntAttr .actionId (if n < 100 then 100 else n.toUInt32.toInt32)

def getDuration : UInt32 := (i.getIntAttr .duration).toUInt32
def setDuration (time : Int32) : Item := i.setIntAttr .duration time
def getDecaying : UInt8 := (i.getIntAttr .decayState).toUInt32.toUInt8
def setDecaying (s : ItemDecayState) : Item := i.setIntAttr .decayState s.toInt32

def getDefaultDuration : UInt32 := (i.getType types).decayTime * 1000

def setDefaultDuration : Item :=
  let duration := i.getDefaultDuration types
  if duration != 0 then i.setDuration duration.toInt32 else i

/-- The key under which an imbuement is stored: 500 plus the slot, in decimal. -/
def imbuementKey (slot : ℕ) : Str := (Nat.toDigits 10 (500 + slot)).map fun c => UInt8.ofNat c.toNat

/-- The upper byte of the stored word does not count. -/
def getImbuement (slot : ℕ) : UInt32 :=
  match i.getAttributes.getCustomAttributeMap.lookup (imbuementKey slot) with
  | some (.integer info) =>
    let info := info.toUInt64.toUInt32
    if info <<< 8 != 0 then info else 0
  | _ => 0

/-- An item may be sold when it is as good as new. -/
def hasMarketAttributes : Bool :=
  match i.attributes with
  | none => true
  | some a =>
    (a.attributes.all fun attr =>
      match attr.type, attr.value with
      | .charges, .integer n => n.toUInt64.toUInt16.toUInt32 == (i.getType types).charges
      | .duration, .integer n => n.toUInt64.toUInt32 == i.getDefaultDuration types
      | _, _ => true) &&
    (List.range (i.getType types).imbuingSlots.toNat).all fun slot => i.getImbuement slot == 0

/-- A reward corpse carries the largest `int32_t` as its owner. -/
def isRewardCorpse : Bool := i.getIntAttr .corpseOwner == 0x7FFFFFFF

def getSubType : UInt16 :=
  let it := i.getType types
  if it.isFluidContainer || it.isSplash then i.getFluidType
  else if it.stackable then i.count.toUInt16
  else if it.charges != 0 then i.getCharges
  else i.count.toUInt16

def setSubType (n : UInt16) : Item :=
  let it := i.getType types
  if it.isFluidContainer || it.isSplash then i.setFluidType n
  else if it.stackable then i.setItemCount n.toNat
  else if it.charges != 0 then i.setCharges n
  else i.setItemCount n.toNat

def countByType (subType : Int) : ℕ :=
  if subType == -1 || subType == (i.getSubType types).toNat then i.getItemCount else 0

def getBaseWeight : UInt32 :=
  if i.hasAttribute .weight then (i.getIntAttr .weight).toUInt32 else (i.getType types).weight

/-- `Item::getWeight`, without what a container holds. -/
def getWeight : UInt32 :=
  if i.isStackable types then i.getBaseWeight types * max 1 i.count.toUInt32
  else i.getBaseWeight types

def getWorth : ℕ :=
  if i.id == ItemId.goldCoin then i.getItemCount
  else if i.id == ItemId.platinumCoin then i.getItemCount * 100
  else if i.id == ItemId.crystalCoin then i.getItemCount * 10000
  else 0

/-- The attribute comparison of `equals`: a text is compared with every text entry of its
type, a number (and the pointer of a custom map) with every other entry of its type. -/
def attributesEqual (a b : ItemAttributes) : Bool :=
  a.attributeBits == b.attributeBits &&
    a.attributes.all fun x => b.attributes.all fun y =>
      x.type != y.type || (!x.type.isCustomAttrType && x.value == y.value)

/-- `other` is the pointee of a pointer that may be null. -/
def equals (other : Option Item) : Bool :=
  match other with
  | none => false
  | some o =>
    i.id == o.id &&
      match i.attributes, o.attributes with
      | none, none => true
      | some a, some b => attributesEqual a b
      | _, _ => false

def setID (newid : UInt16) : Item :=
  let prevIt := i.getType types
  let it := types.getItemType newid
  let i := { i with id := newid }
  let newDuration := it.decayTime * 1000
  let i :=
    if newDuration == 0 && !it.stopTime && it.decayTo < 0 then
      (i.removeAttribute .decayState).removeAttribute .duration
    else i
  let i := if i.isRewardCorpse then i else i.removeAttribute .corpseOwner
  if newDuration > 0 && (!prevIt.stopTime || !i.hasAttribute .duration) then
    (i.setDecaying .decayingFalse).setDuration newDuration.toInt32
  else i

/-- The constructor `Item(itemId, itemCount)` of an object of a given class. -/
def construct (cls : ItemClass) (id : UInt16) (itemCount : UInt16) : Item :=
  let it := types.getItemType id
  let i : Item := { cls := cls, id := id }
  let i :=
    if it.isFluidContainer || it.isSplash then i.setFluidType itemCount
    else if it.stackable then
      if itemCount != 0 then i.setItemCount itemCount.toNat
      else if it.charges != 0 then i.setItemCount it.charges.toNat
      else i
    else if it.charges != 0 then
      if itemCount != 0 then i.setCharges itemCount else i.setCharges it.charges.toUInt16
    else i
  i.setDefaultDuration types

/-- The class an item of a type gets. -/
def classOf (it : ItemType) : ItemClass :=
  if it.isDepot then .depotLocker
  else if it.isRewardChest then .rewardChest
  else if it.isContainer then .container
  else if it.isTeleport then .teleport
  else if it.isMagicField then .magicField
  else if it.isDoor then .door
  else if it.isTrashHolder then .trashHolder
  else if it.isMailbox then .mailbox
  else if it.isBed then .bed
  else .item

/-- The id a plain item is built with: worn forms are created as their unworn ones. -/
def plainId (id type : UInt16) : UInt16 :=
  if 2210 ≤ id && id ≤ 2212 then type - 3
  else if id == 2215 || id == 2216 then type - 2
  else if 2202 ≤ id && id ≤ 2206 then type - 37
  else if id == 2640 then 6132
  else if id == 6301 then 6300
  else if id == 18528 then 18408
  else type

/-- `Item::CreateItem`; a null result is `none`. Only plain items are given the count. -/
def createItem (type : UInt16) (count : UInt16 := 0) : Option Item :=
  let it := types.getItemType type
  if it.group == .deprecated then none else
    let count := if it.stackable && count == 0 then 1 else count
    if it.id == 0 then none
    else if classOf it == .item then some (construct types .item (plainId it.id type) count)
    else some (construct types (classOf it) type 0)

/-- `Item::clone` of the object itself; entering the decay list is left to the caller. -/
def clone : Option Item :=
  (createItem types i.id i.count.toUInt16).map fun c =>
    match i.attributes with
    | none => c
    | some a =>
      let c := { c with attributes := some a }
      if c.getDuration > 0 then c.setDecaying .decayingTrue else c

/-! ## Setters and other attributes -/

/-- The entry an item has under a type. -/
def stored (i : Item) (t : ItemAttrType) : Option Attribute := i.getAttributes.getExistingAttr t

section Frame

variable {types i} {j : Item} {t u : ItemAttrType}

theorem getIntAttr_eq : i.getIntAttr u = (i.getAttributes.getIntAttr u).toInt32 := by
  unfold getIntAttr getAttributes
  cases i.attributes with
  | none =>
    have h : ({} : ItemAttributes).getIntAttr u = 0 := by
      simp [ItemAttributes.getIntAttr, ItemAttributes.getExistingAttr, ItemAttributes.hasAttribute]
    rw [Option.getD_none, h]
    rfl
  | some a => rfl

theorem getStrAttr_eq : i.getStrAttr u = i.getAttributes.getStrAttr u := by
  unfold getStrAttr getAttributes
  cases i.attributes with
  | none =>
    have h : ({} : ItemAttributes).getStrAttr u = [] := by
      simp [ItemAttributes.getStrAttr, ItemAttributes.getExistingAttr, ItemAttributes.hasAttribute]
    rw [Option.getD_none, h]
  | some a => rfl

theorem getIntAttr_congr (h : i.stored t = j.stored t) : i.getIntAttr t = j.getIntAttr t := by
  rw [getIntAttr_eq, getIntAttr_eq, ItemAttributes.getIntAttr, ItemAttributes.getIntAttr]
  unfold stored at h
  rw [h]

theorem stored_setIntAttr_of_ne (hne : t ≠ u) (v : Int32) :
    (i.setIntAttr t v).stored u = i.stored u := by
  rw [stored, setIntAttr, getAttributes, Option.getD_some, ItemAttributes.setIntAttr]
  split
  · rfl
  · exact ItemAttributes.getExistingAttr_modifyAttr_of_ne hne (ItemAttrType.mask_and_mask hne)

theorem stored_setStrAttr_of_ne (hne : t ≠ u) (v : Str) :
    (i.setStrAttr t v).stored u = i.stored u := by
  rw [stored, setStrAttr, getAttributes, Option.getD_some, ItemAttributes.setStrAttr]
  split
  · rfl
  · split
    · rfl
    · exact ItemAttributes.getExistingAttr_modifyAttr_of_ne hne (ItemAttrType.mask_and_mask hne)

theorem stored_setCustomAttribute (hne : .custom ≠ u) (key : Str) (v : CustomAttribute) :
    (i.setCustomAttribute key v).stored u = i.stored u := by
  rw [stored, setCustomAttribute, getAttributes, Option.getD_some,
    ItemAttributes.setCustomAttribute]
  exact ItemAttributes.getExistingAttr_modifyAttr_of_ne hne (ItemAttrType.mask_and_mask hne)

theorem stored_removeAttribute_of_ne (hne : t ≠ u) : (i.removeAttribute t).stored u = i.stored u := by
  unfold stored removeAttribute getAttributes
  cases i.attributes with
  | none => rfl
  | some a => exact ItemAttributes.getExistingAttr_removeAttribute_of_ne hne

theorem stored_setIntAttr_self (ht : t.isIntAttrType = true) (v : Int32) :
    (i.setIntAttr t v).stored t = some ⟨t, .integer v.toInt64⟩ := by
  rw [stored, setIntAttr, getAttributes, Option.getD_some, ItemAttributes.setIntAttr, ht,
    Bool.not_true, if_neg Bool.false_ne_true, ItemAttributes.getExistingAttr_modifyAttr_self]

/-- A text set is stored; the empty text is not set. -/
theorem stored_setStrAttr_self (ht : t.isStrAttrType = true) {v : Str} (hv : v ≠ []) :
    (i.setStrAttr t v).stored t = some ⟨t, .string v⟩ := by
  rw [stored, setStrAttr, getAttributes, Option.getD_some, ItemAttributes.setStrAttr, ht,
    Bool.not_true, if_neg Bool.false_ne_true, if_neg (by simpa using hv),
    ItemAttributes.getExistingAttr_modifyAttr_self]

theorem getIntAttr_setIntAttr_of_ne (hne : t ≠ u) (v : Int32) :
    (i.setIntAttr t v).getIntAttr u = i.getIntAttr u :=
  getIntAttr_congr (stored_setIntAttr_of_ne hne v)

theorem getIntAttr_setStrAttr_of_ne (hne : t ≠ u) (v : Str) :
    (i.setStrAttr t v).getIntAttr u = i.getIntAttr u :=
  getIntAttr_congr (stored_setStrAttr_of_ne hne v)

theorem getIntAttr_setCustomAttribute (hne : .custom ≠ u) (key : Str) (v : CustomAttribute) :
    (i.setCustomAttribute key v).getIntAttr u = i.getIntAttr u :=
  getIntAttr_congr (stored_setCustomAttribute hne key v)

theorem getIntAttr_of_stored (ht : t.isIntAttrType = true) {v : Int64}
    (h : i.stored t = some ⟨t, .integer v⟩) : i.getIntAttr t = v.toInt32 := by
  unfold stored at h
  rw [getIntAttr_eq, ItemAttributes.getIntAttr, ht, h]
  rfl

theorem getStrAttr_of_stored (ht : t.isStrAttrType = true) {v : Str}
    (h : i.stored t = some ⟨t, .string v⟩) : i.getStrAttr t = v := by
  unfold stored at h
  rw [getStrAttr_eq, ItemAttributes.getStrAttr, ht, h]
  rfl

theorem getIntAttr_setIntAttr_self (ht : t.isIntAttrType = true) (v : Int32) :
    (i.setIntAttr t v).getIntAttr t = v :=
  (getIntAttr_of_stored ht (stored_setIntAttr_self ht v)).trans (Int32.toInt32_toInt64 v)

@[simp] theorem id_construct (cls : ItemClass) (id count : UInt16) :
    (construct types cls id count).id = id := by
  unfold construct setDefaultDuration
  dsimp only
  split_ifs <;> rfl

@[simp] theorem cls_setID (newid : UInt16) : (i.setID types newid).cls = i.cls := by
  unfold setID
  dsimp only
  split_ifs <;> rfl

@[simp] theorem id_setID (newid : UInt16) : (i.setID types newid).id = newid := by
  unfold setID
  dsimp only
  split_ifs <;> rfl

@[simp] theorem count_setID (newid : UInt16) : (i.setID types newid).count = i.count := by
  unfold setID
  dsimp only
  split_ifs <;> rfl

@[simp] theorem cls_setSubType (n : UInt16) : (i.setSubType types n).cls = i.cls := by
  unfold setSubType
  dsimp only
  split_ifs <;> rfl

@[simp] theorem id_setSubType (n : UInt16) : (i.setSubType types n).id = i.id := by
  unfold setSubType
  dsimp only
  split_ifs <;> rfl

end Frame

end Item

end OTServBR
