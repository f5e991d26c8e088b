import Mathlib.Data.Nat.Basic

/-! # Item types

The table of item types that `items.otb` and `items.xml` fill in. A type is
found by its server id or, through a reverse map, by its client id; an id
outside the table falls back to the entry in front.
-/

namespace OTServBR

inductive ItemGroup
  | none | ground | container | weapon | ammunition | armor | charges | teleport
  | magicField | writeable | key | splash | fluid | door | deprecated
  deriving DecidableEq, Repr

/-- The special behaviour of a type, which chooses the class of its items. -/
inductive ItemTypes
  | none | depot | mailbox | trashHolder | container | door | magicField | teleport
  | bed | key | rune | supply | rewardChest | carpet
  deriving DecidableEq, Repr

inductive WeaponType
  | none | sword | club | axe | shield | distance | wand | ammo
  deriving DecidableEq, Repr

namespace SlotP

def head : UInt16 := 0x1
def necklace : UInt16 := 0x2
def backpack : UInt16 := 0x4
def armor : UInt16 := 0x8
def right : UInt16 := 0x10
def left : UInt16 := 0x20
def legs : UInt16 := 0x40
def feet : UInt16 := 0x80
def ring : UInt16 := 0x100
def ammo : UInt16 := 0x200
def twoHand : UInt16 := 0x800
def hand : UInt16 := left ||| right

end SlotP

structure ItemType where
  group : ItemGroup := .none
  type : ItemTypes := .none
  id : UInt16 := 0
  stackable : Bool := false
  weight : UInt32 := 0
  decayTime : UInt32 := 0
  charges : UInt32 := 0
  decayTo : Int := -1
  imbuingSlots : Int := 0
  maxItems : UInt16 := 8
  slotPosition : UInt16 := SlotP.hand
  floorChange : UInt8 := 0
  wareId : UInt16 := 0
  weaponType : WeaponType := .none
  alwaysOnTopOrder : UInt8 := 0
  hasHeight : Bool := false
  blockSolid : Bool := false
  blockPathFind : Bool := false
  allowPickupable : Bool := false
  replaceable : Bool := true
  pickupable : Bool := false
  moveable : Bool := false
  alwaysOnTop : Bool := false
  isVertical : Bool := false
  isHorizontal : Bool := false
  isHangable : Bool := false
  stopTime : Bool := false
  deriving DecidableEq, Repr

namespace ItemType

variable (it : ItemType)

def isGroundTile : Bool := it.group == .ground
def isContainer : Bool := it.group == .container
def isSplash : Bool := it.group == .splash
def isFluidContainer : Bool := it.group == .fluid
def isDoor : Bool := it.type == .door
def isMagicField : Bool := it.type == .magicField
def isTeleport : Bool := it.type == .teleport
def isDepot : Bool := it.type == .depot
def isRewardChest : Bool := it.type == .rewardChest
def isCarpet : Bool := it.type == .carpet
def isMailbox : Bool := it.type == .mailbox
def isTrashHolder : Bool := it.type == .trashHolder
def isBed : Bool := it.type == .bed
def isPickupable : Bool := it.allowPickupable || it.pickupable

end ItemType

structure Items where
  items : UInt16 → ItemType
  reverseItemMap : UInt16 → Option UInt16

/-- `Items::operator[]`; the table is total, so the fallback entry is already in it. -/
def Items.getItemType (types : Items) (id : UInt16) : ItemType := types.items id

def Items.getItemIdByClientId (types : Items) (spriteId : UInt16) : ItemType :=
  match types.reverseItemMap spriteId with
  | some id => types.items id
  | none => types.items 0

namespace ItemId

def goldCoin : UInt16 := 2148
def platinumCoin : UInt16 := 2152
def crystalCoin : UInt16 := 2160
def storeCoin : UInt16 := 24774
def rewardContainer : UInt16 := 21518
def storeInbox : UInt16 := 26052
def goldPouch : UInt16 := 26377

end ItemId

end OTServBR
