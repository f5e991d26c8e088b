import OTServBR.Equipment.Basic
import OTServBR.Tile.Basic

/-! # The slots of a player

What is worn lies in slots. A slot takes what fits in it and goes with what the
other hand holds. An item comes into a slot, goes from it to another cylinder or
to another slot, and what is in the way may be exchanged for it.
-/

namespace OTServBR.Slots

open Equipment (Slot)

inductive ReturnValue
  | noError | notPossible | notEnoughRoom | cannotPickup | cannotBeDressed
  | putThisObjectInYourHand | putThisObjectInBothHands | bothHandsNeedToBeFree
  | dropTwoHandedItem | canOnlyUseOneShield | canOnlyUseOneWeapon | needExchange
  | notEnoughCapacity | notMoveable
  /-- What only other cylinders answer. -/
  | refused (code : ℕ)
  deriving DecidableEq, Repr

structure Flags where
  noLimit : Bool := false
  childIsOwner : Bool := false
  ignoreNotMoveable : Bool := false
  ignoreAutoStack : Bool := false
  deriving DecidableEq, Repr

/-- `CONST_SLOT_HEAD` and so on. -/
def constSlot : Slot → ℤ
  | .head => 1
  | .necklace => 2
  | .backpack => 3
  | .armor => 4
  | .right => 5
  | .left => 6
  | .legs => 7
  | .feet => 8
  | .ring => 9
  | .ammo => 10
  | .storeInbox => 11

/-- The slot with an index. -/
def slotAt (index : ℤ) : Option Slot := Slot.all.find? (constSlot · = index)

/-- The bit of the slot in the positions of an item type. -/
def slotp : Slot → UInt16
  | .head => SlotP.head
  | .necklace => SlotP.necklace
  | .backpack => SlotP.backpack
  | .armor => SlotP.armor
  | .right => SlotP.right
  | .left => SlotP.left
  | .legs => SlotP.legs
  | .feet => SlotP.feet
  | .ring => SlotP.ring
  | .ammo => SlotP.ammo
  | .storeInbox => 0

def hasBit (slotPosition bit : UInt16) : Bool := slotPosition &&& bit != 0

abbrev Inventory := Slot → Option TileItem

/-- The two cylinders of a move: the player, and the place where the item comes from or goes to. -/
inductive Side
  | player | outside
  deriving DecidableEq, Repr

structure State where
  inventory : Inventory
  outside : List TileItem

structure Config where
  types : Items
  /-- `CLASSIC_EQUIPMENT_SLOTS`. -/
  classic : Bool

/-- What the rest of the server answers during a move: whether the player can carry something,
what the scripts say, and what the other cylinder and the containers that are worn say. -/
structure Answers where
  hasCapacity : State → TileItem → ℕ → Bool
  onPlayerEquip : State → TileItem → ℤ → Bool
  queryAdd : State → ℤ → TileItem → ℕ → ReturnValue
  queryMaxCount : State → ℤ → TileItem → ℕ → ReturnValue × ℕ
  /-- How much the containers of a slot have room for. -/
  containerRoom : State → Slot → TileItem → ℕ
  /-- Whether one of the containers that are worn takes an item. -/
  containerTakes : State → TileItem → Bool
  tradeItem : Option ℕ := none

section Item

variable (types : Items) (item : TileItem)

def isStackable : Bool := item.item.isStackable types
def getSlotPosition : UInt16 := (item.item.getType types).slotPosition
def getWeaponType : WeaponType := (item.item.getType types).weaponType
def getItemCount : ℕ := item.item.getItemCount

/-- Container, teleport, trash holder or mailbox. -/
def isCylinder : Bool :=
  item.item.cls.isContainer || item.item.cls == .teleport || item.item.cls == .trashHolder ||
    item.item.cls == .mailbox

end Item

/-! ## Where an item fits -/

section QueryAdd

variable (config : Config) (item : TileItem) (count : ℕ)

/-- The answer where an item fits nowhere at all. -/
def refusal (slotPosition : UInt16) : ReturnValue :=
  if hasBit slotPosition SlotP.head || hasBit slotPosition SlotP.necklace ||
      hasBit slotPosition SlotP.backpack || hasBit slotPosition SlotP.armor ||
      hasBit slotPosition SlotP.legs || hasBit slotPosition SlotP.feet ||
      hasBit slotPosition SlotP.ring then .cannotBeDressed
  else if hasBit slotPosition SlotP.twoHand then .putThisObjectInBothHands
  else if hasBit slotPosition SlotP.right || hasBit slotPosition SlotP.left then
    if !config.classic then .cannotBeDressed else .putThisObjectInYourHand
  else .noError

/-- The classic rules for a hand, given what the other one holds. -/
def queryHand (other : Option TileItem) : ReturnValue :=
  if hasBit (getSlotPosition config.types item) SlotP.twoHand then
    if other.isSome && other.map (·.ref) != some item.ref then .bothHandsNeedToBeFree else .noError
  else
    match other with
    | none => .noError
    | some other =>
      let type := getWeaponType config.types item
      let otherType := getWeaponType config.types other
      if hasBit (getSlotPosition config.types other) SlotP.twoHand then .dropTwoHandedItem
      else if item.ref == other.ref && count == getItemCount item then .noError
      else if otherType == .shield && type == .shield then .canOnlyUseOneShield
      else if otherType == .none || type == .none || otherType == .shield || otherType == .ammo ||
          type == .shield || type == .ammo then .noError
      else .canOnlyUseOneWeapon

/-- The right hand of today holds a shield. -/
def queryRight (leftItem : Option TileItem) : ReturnValue :=
  if getWeaponType config.types item != .shield then .cannotBeDressed
  else
    match leftItem with
    | none => .noError
    | some leftItem =>
      if hasBit (getSlotPosition config.types leftItem ||| getSlotPosition config.types item)
          SlotP.twoHand then .bothHandsNeedToBeFree
      else .noError

/-- The left hand of today holds a weapon. -/
def queryLeft (rightItem : Option TileItem) : ReturnValue :=
  let type := getWeaponType config.types item
  if type == .none || type == .shield then .cannotBeDressed
  else if rightItem.isSome && hasBit (getSlotPosition config.types item) SlotP.twoHand then
    .bothHandsNeedToBeFree
  else .noError

/-- The switch over the index. -/
def querySlot (inventory : Inventory) (index : ℤ) : ReturnValue :=
  let slotPosition := getSlotPosition config.types item
  match slotAt index with
  | some .right =>
    if hasBit slotPosition SlotP.right then
      if !config.classic then queryRight config item (inventory .left)
      else queryHand config item count (inventory .left)
    else refusal config slotPosition
  | some .left =>
    if hasBit slotPosition SlotP.left then
      if !config.classic then queryLeft config item (inventory .right)
      else queryHand config item count (inventory .right)
    else refusal config slotPosition
  | some .ammo =>
    if hasBit slotPosition SlotP.ammo || config.classic then .noError
    else refusal config slotPosition
  | some .storeInbox => .notPossible
  | some slot => if hasBit slotPosition (slotp slot) then .noError else refusal config slotPosition
  | none => if index = 0 ∨ index = -1 then .notEnoughRoom else .notPossible

variable (a : Answers) (s : State)

/-- `Player::queryAdd`. -/
def queryAdd (index : ℤ) (flags : Flags) : ReturnValue :=
  if flags.childIsOwner then
    if flags.noLimit || a.hasCapacity s item count then .noError else .notEnoughCapacity
  else if !item.item.isPickupable config.types then .cannotPickup
  else
    let ret := querySlot config item count s.inventory index
    if ret = .noError ∨ ret = .notEnoughRoom then
      let exchange := (slotAt index).bind s.inventory |>.any fun inventoryItem =>
        !isStackable config.types inventoryItem || inventoryItem.item.id != item.item.id
      if exchange then .needExchange
      else if !a.hasCapacity s item count then .notEnoughCapacity
      else if !a.onPlayerEquip s item index then .cannotBeDressed
      else ret
    else ret

end QueryAdd

/-! ## The other questions -/

section Queries

variable (config : Config) (a : Answers) (s : State) (item : TileItem)

/-- The room of an empty slot. -/
def emptyRoom : ℕ := if isStackable config.types item then 100 else 1

/-- What a slot adds to the room for an item that may go anywhere. -/
def slotRoom (flags : Flags) (slot : Slot) : ℕ :=
  match s.inventory slot with
  | some inventoryItem =>
    if inventoryItem.item.cls.isContainer then a.containerRoom s slot item
    else if isStackable config.types inventoryItem && item.item.equals (some inventoryItem.item) &&
        getItemCount inventoryItem < 100 then
      let remainder := 100 - getItemCount inventoryItem
      if queryAdd config item remainder a s (constSlot slot) flags = .noError then remainder else 0
    else 0
  | none =>
    if queryAdd config item (getItemCount item) a s (constSlot slot) flags = .noError then
      emptyRoom config item
    else 0

/-- `Player::queryMaxCount`. The number is the one of the caller where none is written. -/
def queryMaxCount (index : ℤ) (count : ℕ) (flags : Flags) : ReturnValue × ℕ :=
  let answer (maxQueryCount : ℕ) : ReturnValue × ℕ :=
    (if maxQueryCount < count then .notEnoughRoom else .noError, maxQueryCount)
  if index = -1 then answer (Slot.all.map (slotRoom config a s item flags)).sum
  else
    match (slotAt index).bind s.inventory with
    | some destItem =>
      if isStackable config.types destItem && item.item.equals (some destItem.item) &&
          getItemCount destItem < 100 then answer (100 - getItemCount destItem)
      else answer 0
    | none =>
      if queryAdd config item count a s index flags = .noError then
        (.noError, emptyRoom config item)
      else answer 0

/-- The items on a side. -/
def State.held : Side → List TileItem
  | .player => Slot.all.filterMap s.inventory
  | .outside => s.outside

/-- The position of an item: a slot, or the place in the other cylinder. -/
def getThingIndex (side : Side) : ℤ :=
  match side with
  | .player =>
    match Slot.all.find? fun slot => (s.inventory slot).map (·.ref) = some item.ref with
    | some slot => constSlot slot
    | none => -1
  | .outside =>
    match s.outside.findIdx? (·.ref = item.ref) with
    | some index => index
    | none => -1

/-- `queryRemove` of the player, of a tile or of a container. -/
def queryRemove (side : Side) (count : ℕ) (flags : Flags) : ReturnValue :=
  if getThingIndex s item side = -1 then .notPossible
  else if count = 0 ∨ isStackable config.types item ∧ getItemCount item < count then .notPossible
  else if !item.item.isMoveable config.types && !flags.ignoreNotMoveable then .notMoveable
  else .noError

/-- Where an item goes that is meant for the player: into a slot, perhaps to an item that is
there, or into something that is worn. -/
inductive Destination
  | slot (index : ℤ) (destItem : Option TileItem)
  | elsewhere
  deriving DecidableEq

/-- Whether the search stops at a slot. -/
def stopsAt (flags : Flags) (slot : Slot) : Bool :=
  match s.inventory slot with
  | some inventoryItem =>
    a.tradeItem != some inventoryItem.ref && inventoryItem.ref != item.ref &&
      !flags.ignoreAutoStack && isStackable config.types item &&
      queryAdd config item (getItemCount item) a s (constSlot slot) {} = .noError &&
      inventoryItem.item.equals (some item.item) && getItemCount inventoryItem < 100
  | none => queryAdd config item (getItemCount item) a s (constSlot slot) flags = .noError

/-- `Player::queryDestination`. The search ends before the slot of the store. -/
def queryDestination (index : ℤ) (flags : Flags) : Destination :=
  if index = 0 ∨ index = -1 then
    match (Slot.all.take 10).find? (stopsAt config a s item flags) with
    | some slot => .slot (constSlot slot) (s.inventory slot)
    | none => if a.containerTakes s item then .elsewhere else .slot index none
  else
    match (slotAt index).bind s.inventory with
    | some destItem => if isCylinder destItem then .elsewhere else .slot index (some destItem)
    | none => .slot index none

end Queries

/-! ## Moves -/

namespace State

variable (config : Config) (s : State)

/-- Change an item through its pointer, or take it away. -/
def alter (ref : ℕ) (f : TileItem → Option TileItem) : State :=
  let change (i : TileItem) : Option TileItem := if i.ref = ref then f i else some i
  { inventory := fun slot => (s.inventory slot).bind change
    outside := s.outside.filterMap change }

/-- `removeThing` of the cylinder that holds the item. -/
def removeThing (item : TileItem) (count : ℕ) : State :=
  s.alter item.ref fun i =>
    if isStackable config.types item ∧ count ≠ getItemCount item then
      some { i with item := i.item.setItemCount (getItemCount item - count) }
    else none

/-- `addThing` with an index. -/
def addThing (side : Side) (index : ℤ) (item : TileItem) : State :=
  match side with
  | .player =>
    match slotAt index with
    | some slot => { s with inventory := Function.update s.inventory slot (some item) }
    | none => s
  | .outside => { s with outside := item :: s.outside }

/-- `addThing` without an index, which a player ignores. -/
def addThingAnywhere (side : Side) (item : TileItem) : State :=
  match side with
  | .player => s
  | .outside => { s with outside := item :: s.outside }

/-- `updateThing` of the cylinder that holds the item. -/
def updateThing (item : TileItem) (itemId : UInt16) (count : ℕ) : State :=
  s.alter item.ref fun i =>
    some { i with
      item := (i.item.setID config.types itemId).setSubType config.types (UInt16.ofNat count) }

end State

section Move

variable (config : Config) (a : Answers) (flags : Flags) (source dest : Side) (index : ℤ)
  (item : TileItem) (count : ℕ)

def queryAddSide (s : State) (side : Side) (index : ℤ) (item : TileItem) (count : ℕ)
    (flags : Flags) : ReturnValue :=
  match side with
  | .player => queryAdd config item count a s index flags
  | .outside => a.queryAdd s index item count

def queryMaxCountSide (s : State) (side : Side) (index : ℤ) (item : TileItem) (count : ℕ)
    (flags : Flags) : ReturnValue × ℕ :=
  match side with
  | .player => queryMaxCount config a s item index count flags
  | .outside => a.queryMaxCount s index item count

/-- How many pieces of a moved stack go to the one that is there. -/
def merged (toItem : TileItem) (m : ℕ) : ℕ :=
  -- a difference below zero is a large `uint32_t`
  if getItemCount toItem ≤ 100 then min (100 - getItemCount toItem) m else m

/-- The item has left its place and arrives, a stack as a new object. Where no new object can be
made there is no state. -/
def arrive (s : State) (toItem : Option TileItem) (m fresh : ℕ) : Option State :=
  if isStackable config.types item then
    match toItem.filter fun toItem => item.item.equals (some toItem.item) with
    | some toItem =>
      let n := merged toItem m
      let s := s.updateThing config toItem toItem.item.id (getItemCount toItem + n)
      if m - n = 0 then some s
      else
        (item.item.clone config.types).map fun c =>
          s.addThing dest index ⟨fresh, c.setItemCount (m - n)⟩
    | none =>
      if m = 0 then some s
      else
        (item.item.clone config.types).map fun c =>
          s.addThing dest index ⟨fresh, c.setItemCount m⟩
  else some (s.addThing dest index item)

/-- The part of a move after both sides have agreed. -/
def carry (s : State) (toItem : Option TileItem) (fresh : ℕ) : Option (ReturnValue × State) :=
  let (retMaxCount, maxQueryCount) := queryMaxCountSide config a s dest index item count flags
  if retMaxCount ≠ .noError ∧ maxQueryCount = 0 then some (retMaxCount, s)
  else
    let m := if isStackable config.types item then min count maxQueryCount else maxQueryCount
    let ret := queryRemove config s item source m flags
    if ret ≠ .noError then some (ret, s)
    else
      (arrive config dest index item (s.removeThing config item m) toItem m fresh).map
        fun s =>
          (if isStackable config.types item ∧ maxQueryCount < count then retMaxCount
            else .noError, s)

/-- `Game::internalMoveItem` from the point where the destination is known, with the address of a
new object. -/
def internalMoveItem (s : State) (toItem : Option TileItem) (fresh : ℕ) :
    Option (ReturnValue × State) :=
  if toItem.map (·.ref) = some item.ref then some (.noError, s)
  else
    let ret := queryAddSide config a s dest index item count flags
    match ret, toItem with
    | .needExchange, none => none
    | .needExchange, some toItem =>
      let ret := queryAddSide config a s source (getThingIndex s item source) toItem
        (getItemCount toItem) {}
      if ret ≠ .noError then some (ret, s)
      else
        let (retMaxCount, maxQueryCount) :=
          queryMaxCountSide config a s source (-1) toItem (getItemCount toItem) {}
        if retMaxCount ≠ .noError ∧ maxQueryCount = 0 then some (retMaxCount, s)
        else if queryRemove config s toItem dest (getItemCount toItem) flags = .noError then
          let s := (s.removeThing config toItem (getItemCount toItem)).addThingAnywhere source
            toItem
          let ret := queryAddSide config a s dest index item count flags
          if ret ≠ .noError then some (ret, s)
          else carry config a flags source dest index item count s none fresh
        else carry config a flags source dest index item count s (some toItem) fresh
    | .noError, toItem => carry config a flags source dest index item count s toItem fresh
    | ret, _ => some (ret, s)

end Move

/-! ## Runs -/

inductive Action
  /-- Move an item, perhaps onto an item of the other cylinder. -/
  | move (a : Answers) (flags : Flags) (source dest : Side) (index : ℤ) (ref : ℕ)
      (toRef : Option ℕ) (count fresh : ℕ)
  /-- Something appears in the other cylinder. -/
  | appear (item : TileItem)
  /-- Something is used up or taken away. -/
  | remove (flags : Flags) (side : Side) (ref count : ℕ)

section Step

variable (config : Config) (s : State)

def State.find (side : Side) (ref : ℕ) : Option TileItem := (s.held side).find? (·.ref = ref)

/-- Where a move ends: what is meant for the player may go into something that is worn. -/
def destination (a : Answers) (flags : Flags) (dest : Side) (index : ℤ) (item : TileItem)
    (toItem : Option TileItem) : Flags × Side × ℤ × Option TileItem :=
  match dest with
  | .player =>
    match queryDestination config a s item index flags with
    | .slot index destItem => (flags, .player, index, destItem)
    | .elsewhere => ({}, .outside, -1, toItem)
  | .outside => (flags, .outside, index, toItem)

def step : Action → Option State
  | .move a flags source dest index ref toRef count fresh =>
    match s.find source ref with
    | some item =>
      let (flags, dest, index, toItem) :=
        destination config s a flags dest index item (toRef.bind (s.find .outside))
      (internalMoveItem config a flags source dest index item count s toItem fresh).map (·.2)
    | none => some s
  | .appear item => some { s with outside := item :: s.outside }
  | .remove flags side ref count =>
    match s.find side ref with
    | some item =>
      -- `internalRemoveItem`
      let flags := { flags with ignoreNotMoveable := true }
      if queryRemove config s item side count flags ≠ .noError then some s
      else if !item.item.cls.canRemove then some s
      else some (s.removeThing config item count)
    | none => some s

end Step

end OTServBR.Slots
