import Mathlib
import OTServBR.Item.Decay
import OTServBR.Equipment.Imbuements

/-! # Equipment

What is worn in a slot gives the player its abilities. Putting on and taking off
may change the item, which takes it off and puts it on again, so the functions
call each other. The calls that are still to be made stand in a list, and one step
makes the first of them.
-/

namespace OTServBR.Equipment

open Decay (DecayState)

inductive Slot
  | head | necklace | backpack | armor | right | left | legs | feet | ring | ammo | storeInbox
  deriving DecidableEq, Repr

/-- From `CONST_SLOT_FIRST` to `CONST_SLOT_LAST`. -/
def Slot.all : List Slot :=
  [.head, .necklace, .backpack, .armor, .right, .left, .legs, .feet, .ring, .ammo, .storeInbox]

instance : Fintype Slot where
  elems := ⟨Slot.all, by decide⟩
  complete := fun s => by cases s <;> decide

/-- The bit of the slot in the mask of a move event. -/
def Slot.slotp : Slot → UInt32
  | .head => 0x001
  | .necklace => 0x002
  | .backpack => 0x004
  | .armor => 0x008
  | .right => 0x010
  | .left => 0x020
  | .legs => 0x040
  | .feet => 0x080
  | .ring => 0x100
  | .ammo => 0x200
  | .storeInbox => 0

inductive Stat
  | maxHitPoints | maxManaPoints | soulPoints | magicPoints | capacity
  deriving DecidableEq, Repr

/-- The counters of a player that items change. -/
inductive Counter
  | skill (i : Fin 13)
  | stat (s : Stat)
  | speed
  deriving DecidableEq, Repr

instance : Fintype Counter where
  elems := ⟨((List.finRange 13).map Counter.skill ++
    [.stat .maxHitPoints, .stat .maxManaPoints, .stat .soulPoints, .stat .magicPoints,
      .stat .capacity, .speed] : List Counter), by decide⟩
  complete := fun
    | .skill i => by simp
    | .stat s => by cases s <;> simp
    | .speed => by simp

abbrev Bonus := Counter → ℤ

structure Abilities where
  skills : Fin 13 → ℤ := fun _ => 0
  stats : Stat → ℤ := fun _ => 0
  statsPercent : Stat → ℤ := fun _ => 0
  speed : ℤ := 0
  conditionSuppressions : UInt32 := 0

structure Imbuement where
  skills : Fin 13 → ℤ := fun _ => 0
  stats : Stat → ℤ := fun _ => 0
  speed : ℤ := 0
  capacity : UInt32 := 0

structure ItemType extends Decay.ItemType where
  transformEquipTo : UInt16 := 0
  transformDeEquipTo : UInt16 := 0
  imbuingSlots : ℕ := 0
  abilities : Option Abilities := none

structure MoveEvent where
  slot : UInt32
  wieldInfo : UInt32 := 0
  reqLevel : UInt32 := 0
  reqMagLevel : UInt32 := 0
  premium : Bool := false
  vocEquipMap : List UInt16 := []

/-- The members of a player that no item changes. -/
structure Player where
  level : UInt32
  magLevel : UInt32
  healthMax : Int32
  manaMax : UInt32
  skills : Fin 13 → UInt16
  vocationId : UInt16
  isPremium : Bool
  ignoreWeaponCheck : Bool

/-- What there is besides the items. -/
structure World where
  types : UInt16 → ItemType
  getImbuement : UInt32 → Imbuement
  equipEvents : UInt16 → List MoveEvent
  deEquipEvents : UInt16 → List MoveEvent
  /-- A percentage of a number, as a float and cut off to an integer. -/
  percentOf : ℤ → ℤ → ℤ
  player : Player

structure Item extends Decay.Item where
  imbuements : List Imbuing.Slot := []
  /-- The item lies in a container that the player carries. -/
  carried : Bool := false

/-- What an item adds when it is put on. -/
structure Effect where
  bonus : Bonus := 0
  capacity : UInt32 := 0
  suppressions : UInt32 := 0
  deriving DecidableEq

/-- A call that is still to be made, or what is left of one. -/
inductive Call
  /-- The decay of the item that comes out may start afterwards. -/
  | transformItem (i : ℕ) (newId : UInt16) (newCount : Option ℕ) (decays : Bool)
  | updateThing (i : ℕ) (slot : Option Slot) (itemId : Option UInt16) (count : Option ℕ)
      (duration : Int32)
  | setID (i : ℕ) (newId : UInt16) (newCount : Option ℕ)
  | release (i : ℕ) (slot : Slot)
  | queue (i : ℕ)
  | startDecay (i : ℕ)
  | postAddNotification (i : ℕ)
  /-- A turn of the loop over the slots at login. -/
  | login (slot : Slot)
  | onPlayerEquip (i : ℕ) (slot : Slot)
  | add (e : Effect)
  | remove (e : Effect)

/-- What becomes of an item that is transformed. -/
inductive Transformation
  /-- Nothing comes out. -/
  | nothing
  | unchanged
  /-- It is removed, changed and added anew. -/
  | anew
  | removed
  | again (newId : UInt16)
  | replaced (id : UInt16) (count : ℕ) (queues : Bool)
  /-- The item keeps the id or the count that is absent. -/
  | inPlace (itemId : Option UInt16) (count : Option ℕ)
  deriving DecidableEq, Repr

structure Game where
  items : ℕ → Item
  /-- The next item that is created. -/
  next : ℕ
  inventory : Slot → Option ℕ
  inventoryAbilities : Slot → Bool
  bonus : Bonus
  capacity : UInt32
  conditionSuppressions : UInt32
  calls : List Call

/-- The first event of the list for the slot. -/
def getEvent (events : List MoveEvent) (slot : Slot) : Option MoveEvent :=
  events.find? fun event => event.slot &&& slot.slotp ≠ 0

namespace World

variable (w : World)

def decayTypes (id : UInt16) : Decay.ItemType := (w.types id).toItemType

def getDefaultStats : Stat → ℤ
  | .maxHitPoints => w.player.healthMax.toInt
  | .maxManaPoints => w.player.manaMax.toNat
  | .magicPoints => w.player.magLevel.toNat
  | _ => 0

/-- The abilities of a type as `EquipItem` adds them. -/
def abilitiesBonus (a : Abilities) : Bonus
  | .skill i => a.skills i
  | .stat s => a.stats s +
      if a.statsPercent s ≠ 0 then w.percentOf (w.getDefaultStats s) (a.statsPercent s) else 0
  | .speed => a.speed

def imbuementBonus (im : Imbuement) : Bonus
  | .skill i => im.skills i
  | .stat s => im.stats s
  | .speed => im.speed

/-- The imbuements of an item that have time left. -/
def imbuements (it : ItemType) (item : Item) : List Imbuement :=
  ((item.imbuements.take it.imbuingSlots).filter Imbuing.Slot.imbued).map fun v =>
    w.getImbuement (v.getImbuement &&& 0xFF)

def effect (item : Item) : Effect :=
  let it := w.types item.id
  { bonus := ((w.imbuements it item).map imbuementBonus).sum +
      (it.abilities.map w.abilitiesBonus).getD 0
    capacity := ((w.imbuements it item).map Imbuement.capacity).foldr (· + ·) 0
    suppressions := (it.abilities.map Abilities.conditionSuppressions).getD 0 }

/-- The branch that `transformItem` takes for an item; it looks at nothing else. -/
def transformation (item : Item) (newId : UInt16) (newCount : Option ℕ) : Transformation :=
  let curType := w.types item.id
  let newType := w.types newId
  if item.id = newId &&
      (newCount = none || newCount = some item.subType && newCount ≠ some 0) then .unchanged
  else if !item.hasParent then .nothing
  else if !item.canTransform then .unchanged
  else if !newType.known then .unchanged
  else if curType.alwaysOnTop ≠ newType.alwaysOnTop then .anew
  else if curType.type = newType.type then
    if newCount = some 0 && (curType.stackable || item.hasCharges) then
      if curType.stackable then .removed
      else
        let newItemId := if item.id = newId then curType.decayTo else newId.toUInt32.toInt32
        if newItemId ≤ 0 then .removed
        else if newItemId ≠ newId.toUInt32.toInt32 then
          let id := newItemId.toUInt32.toUInt16
          if (w.types id).deprecated || !(w.types id).known then .nothing
          else .replaced id 1 false
        else .again newItemId.toUInt32.toUInt16
    else
      .inPlace (if item.id ≠ newId then some newId else none)
        (if newType.hasSubType then newCount else none)
  else if newType.deprecated then .nothing
  else .replaced newId (newCount.getD 0) true

/-- `CreateItem`, for an item that takes the place of another. -/
def create (id : UInt16) (count : ℕ) (carried : Bool) : Item :=
  { Decay.Item.create w.decayTypes id count with carried }

/-- `setID` and the count, which is kept if it is absent. -/
def changed (item : Item) (newId : UInt16) (newCount : Option ℕ) : Item :=
  { item with toItem :=
      { item.toItem.setID w.decayTypes newId with subType := newCount.getD item.subType } }

/-- The check of `EquipItem`. -/
def wields (bonus : Bonus) (event : MoveEvent) : Bool :=
  if !w.player.ignoreWeaponCheck && event.wieldInfo ≠ 0 then
    if w.player.level < event.reqLevel ||
        max 0 ((w.player.magLevel.toNat : ℤ) + bonus (.stat .magicPoints)) <
          event.reqMagLevel.toNat then false
    else if event.premium && !w.player.isPremium then false
    else event.vocEquipMap.isEmpty || event.vocEquipMap.contains w.player.vocationId
  else true

end World

namespace Game

variable (w : World)

def setItem (g : Game) (i : ℕ) (item : Item) : Game :=
  { g with items := Function.update g.items i item }

def modifyItem (g : Game) (i : ℕ) (f : Item → Item) : Game := g.setItem i (f (g.items i))

/-- Another item is created. -/
def addItem (g : Game) (item : Item) : Game := { g.setItem g.next item with next := g.next + 1 }

def setInventory (g : Game) (s : Slot) (i : Option ℕ) : Game :=
  { g with inventory := Function.update g.inventory s i }

def setItemAbility (g : Game) (s : Slot) (enabled : Bool) : Game :=
  { g with inventoryAbilities := Function.update g.inventoryAbilities s enabled }

/-- The calls are made before the others. -/
def push (g : Game) (calls : List Call) : Game := { g with calls := calls ++ g.calls }

/-- `getThingIndex` of the player. -/
def getThingIndex (g : Game) (i : ℕ) : Option Slot :=
  Slot.all.find? fun s => g.inventory s = some i

/-- The last part of `EquipItem`. -/
def addEffect (g : Game) (e : Effect) : Game :=
  { g with bonus := g.bonus + e.bonus, capacity := g.capacity + e.capacity,
           conditionSuppressions := g.conditionSuppressions ||| e.suppressions }

/-- The last part of `DeEquipItem`. -/
def removeEffect (g : Game) (e : Effect) : Game :=
  { g with bonus := g.bonus - e.bonus, capacity := g.capacity - e.capacity,
           conditionSuppressions := g.conditionSuppressions &&& ~~~e.suppressions }

def equipItem (g : Game) (event : MoveEvent) (i : ℕ) (s : Slot) : Game :=
  if g.inventoryAbilities s then g
  else if !w.wields g.bonus event then g
  else
    let it := w.types (g.items i).id
    let e := w.effect (g.items i)
    if it.transformEquipTo ≠ 0 then
      g.push [.transformItem i it.transformEquipTo none true, .add e]
    else (g.setItemAbility s true).addEffect e

def deEquipItem (g : Game) (i : ℕ) (s : Slot) : Game :=
  if !g.inventoryAbilities s then g
  else
    let it := w.types (g.items i).id
    let e := w.effect (g.items i)
    let g := g.setItemAbility s false
    if it.transformDeEquipTo ≠ 0 then
      g.push [.transformItem i it.transformDeEquipTo none false, .startDecay i, .remove e]
    else g.removeEffect e

def onPlayerEquip (g : Game) (i : ℕ) (s : Slot) : Game :=
  match getEvent (w.equipEvents (g.items i).id) s with
  | none => g
  | some event => g.equipItem w event i s

def onPlayerDeEquip (g : Game) (i : ℕ) (s : Slot) : Game :=
  match getEvent (w.deEquipEvents (g.items i).id) s with
  | none => g
  | some _ => g.deEquipItem w i s

/-- `postRemoveNotification`; containers tell the player nothing of the slots. -/
def postRemoveNotification (g : Game) (i : ℕ) (slot : Option Slot) : Game :=
  match slot with
  | none => g
  | some s => g.onPlayerDeEquip w i s

def postAddNotification (g : Game) (i : ℕ) (slot : Option Slot) : Game :=
  match slot with
  | none => g
  | some s => g.onPlayerEquip w i s

/-- The item leaves the place it is in. -/
def removeThing (g : Game) (i : ℕ) : Game :=
  let g := g.modifyItem i fun item => { item with hasParent := false, carried := false }
  match g.getThingIndex i with
  | none => g
  | some s => g.setInventory s none

def internalRemoveItem (g : Game) (i : ℕ) : Game :=
  if !(g.items i).hasParent then g
  else if !(g.items i).canRemove then g
  else (g.removeThing i).postRemoveNotification w i (g.getThingIndex i)

/-- The old item is not of the world any more. -/
def release (g : Game) (i : ℕ) (s : Slot) : Game :=
  (g.modifyItem i fun item => { item with hasParent := false }).onPlayerDeEquip w i s

/-- A new item takes the place of an old one, and the calls follow. -/
def replaceThing (g : Game) (i : ℕ) (id : UInt16) (count : ℕ) (calls : List Call) : Game :=
  let n := g.next
  let created := g.addItem (w.create id count (g.items i).carried)
  match g.getThingIndex i with
  | none =>
    (created.modifyItem i fun item => { item with hasParent := false, carried := false }).push calls
  | some s =>
    let g := created.setInventory s (some n)
    -- `EquipItem` does nothing in a slot whose ability is enabled
    if g.inventoryAbilities s then (g.push calls).release w i s
    else (g.push (.release i s :: calls)).onPlayerEquip w n s

def startDecayCall (decays : Bool) (i : ℕ) : List Call := if decays then [.startDecay i] else []

/-- `transformItem`, with the calls for the item that comes out. -/
def transformItem (g : Game) (i : ℕ) (newId : UInt16) (newCount : Option ℕ) (decays : Bool) :
    Game :=
  let slot := g.getThingIndex i
  match w.transformation (g.items i) newId newCount with
  | .nothing => g
  | .unchanged => g.push (startDecayCall decays i)
  | .anew =>
    match slot with
    | none => g.push (.setID i newId newCount :: startDecayCall decays i)
    -- `addThing` of the player does nothing without a slot
    | some s => ((g.push [.setID i newId newCount]).removeThing i).postRemoveNotification w i s
  | .removed => g.internalRemoveItem w i
  | .again newId => g.push [.transformItem i newId none decays]
  | .replaced id count queues =>
    g.replaceThing w i id count
      ((if queues then [.queue g.next] else []) ++ startDecayCall decays g.next)
  | .inPlace itemId count =>
    (g.push (.updateThing i slot itemId count (g.items i).getDuration ::
      startDecayCall decays i)).postRemoveNotification w i slot

/-- `updateThing` of the place of the item, with the duration that is left. -/
def updatedItem (g : Game) (i : ℕ) (slot : Option Slot) (itemId : Option UInt16)
    (count : Option ℕ) (duration : Int32) : Item :=
  let item := g.items i
  let item :=
    if slot.isSome && g.getThingIndex i = none then item
    else w.changed item (itemId.getD item.id) count
  if duration ≠ 0 then { item with duration := some duration } else item

/-- The second half of a change in place. The index is the one from before. -/
def updateThing (g : Game) (i : ℕ) (slot : Option Slot) (itemId : Option UInt16)
    (count : Option ℕ) (duration : Int32) : Game :=
  (g.setItem i (g.updatedItem w i slot itemId count duration)).postAddNotification w i slot

def queue (g : Game) (i : ℕ) : Game :=
  if (g.items i).getDuration ≠ 0 then
    g.modifyItem i fun item => { item with decayState := .decaying }
  else g

/-- The skills and stats that `internalDecayItem` takes from the player. -/
def decayBonus (it : ItemType) : Bonus
  | .speed => 0
  | k => (it.abilities.map w.abilitiesBonus).getD 0 k

def internalDecayItem (g : Game) (i : ℕ) : Game :=
  let it := w.types (g.items i).id
  if it.decayTo ≠ 0 then
    let g := if (g.getThingIndex i).isSome || (g.items i).carried then
        { g with bonus := g.bonus - decayBonus w it }
      else g
    g.push [.transformItem i it.decayTo.toUInt32.toUInt16 none true]
  else g.internalRemoveItem w i

def startDecay (g : Game) (i : ℕ) : Game :=
  if !(g.items i).canDecay w.decayTypes then g
  else if (g.items i).decayState = .decaying then g
  else if (g.items i).getDuration ≠ 0 then
    g.modifyItem i fun item => { item with decayState := .decaying }
  else g.internalDecayItem w i

def call (g : Game) : Call → Game
  | .transformItem i newId newCount decays => g.transformItem w i newId newCount decays
  | .updateThing i slot itemId count duration => g.updateThing w i slot itemId count duration
  | .setID i newId newCount => g.modifyItem i fun item => w.changed item newId newCount
  | .release i s => g.release w i s
  | .queue i => g.queue i
  | .startDecay i => g.startDecay w i
  | .postAddNotification i => g.postAddNotification w i (g.getThingIndex i)
  | .login s =>
    match g.inventory s with
    | none => g
    | some i => g.push [.startDecay i, .onPlayerEquip i s]
  | .onPlayerEquip i s => g.onPlayerEquip w i s
  | .add e => g.addEffect e
  | .remove e => g.removeEffect e

/-- The first call is made. -/
def makeCall (g : Game) : Game :=
  match g.calls with
  | [] => g
  | c :: calls => { g with calls }.call w c

end Game

inductive Place
  | slot (s : Slot)
  | container
  | elsewhere
  deriving DecidableEq, Repr

inductive Action
  /-- A call is made while there is one. -/
  | makeCall
  | moveItem (i : ℕ) (dest : Place)
  /-- A container with the item in it comes to the player or leaves. -/
  | carry (i : ℕ) (carried : Bool)
  | transformItem (i : ℕ) (newId : UInt16) (newCount : Option ℕ)
  | startDecay (i : ℕ)
  /-- The time of the item is over. -/
  | decay (i : ℕ)
  deriving DecidableEq, Repr

namespace Game

variable (w : World)

def addThing (g : Game) (i : ℕ) : Place → Game
  | .slot s => (g.modifyItem i fun item => { item with hasParent := true }).setInventory s (some i)
  | .container => g.modifyItem i fun item => { item with hasParent := true, carried := true }
  | .elsewhere => g.modifyItem i fun item => { item with hasParent := true }

/-- The place may take another item. -/
def hasRoom (g : Game) : Place → Bool
  | .slot s => (g.inventory s).isNone
  | _ => true

/-- `internalMoveItem`, for an item that is no stack. -/
def moveItem (g : Game) (i : ℕ) (dest : Place) : Game :=
  if !(g.items i).hasParent || (w.types (g.items i).id).stackable || !g.hasRoom dest then g
  else
    (((g.push [.postAddNotification i, .queue i]).removeThing i).addThing i dest
      ).postRemoveNotification w i (g.getThingIndex i)

def step (g : Game) : Action → Game
  | .makeCall => g.makeCall w
  | .moveItem i dest => if g.calls.isEmpty && i < g.next then g.moveItem w i dest else g
  | .carry i carried =>
    if g.calls.isEmpty && (g.getThingIndex i).isNone then
      g.modifyItem i fun item => { item with carried }
    else g
  | .transformItem i newId newCount =>
    if g.calls.isEmpty && i < g.next then g.transformItem w i newId newCount false else g
  | .startDecay i => if g.calls.isEmpty && i < g.next then g.startDecay w i else g
  | .decay i =>
    if g.calls.isEmpty && i < g.next && (g.items i).canDecay w.decayTypes then
      (g.modifyItem i fun item => { item with duration := some 0 }).internalDecayItem w i
    else g

/-! ## The parts of a game -/

section Parts

variable {w : World} {g : Game} {i j : ℕ} {item : Item} {f : Item → Item} {s t : Slot}

@[simp] theorem setItem_items : (g.setItem i item).items = Function.update g.items i item := rfl

@[simp] theorem modifyItem_self : (g.modifyItem i f).items i = f (g.items i) := by
  simp [modifyItem]

theorem modifyItem_of_ne (h : j ≠ i) : (g.modifyItem i f).items j = g.items j := by
  simp [modifyItem, h]

@[simp] theorem modifyItem_inventory : (g.modifyItem i f).inventory = g.inventory := rfl

@[simp] theorem modifyItem_inventoryAbilities :
    (g.modifyItem i f).inventoryAbilities = g.inventoryAbilities := rfl

@[simp] theorem setInventory_self {o : Option ℕ} : (g.setInventory s o).inventory s = o := by
  simp [setInventory]

theorem setInventory_of_ne {o : Option ℕ} (h : t ≠ s) :
    (g.setInventory s o).inventory t = g.inventory t := by
  simp [setInventory, h]

@[simp] theorem setItemAbility_self {enabled : Bool} :
    (g.setItemAbility s enabled).inventoryAbilities s = enabled := by
  simp [setItemAbility]

theorem setItemAbility_of_ne {enabled : Bool} (h : t ≠ s) :
    (g.setItemAbility s enabled).inventoryAbilities t = g.inventoryAbilities t := by
  simp [setItemAbility, h]

theorem inventory_of_getThingIndex (h : g.getThingIndex i = some s) : g.inventory s = some i := by
  simpa using List.find?_some h

theorem getThingIndex_isSome (h : g.inventory s = some i) : (g.getThingIndex i).isSome := by
  have hs : s ∈ Slot.all := Fintype.complete s
  rw [getThingIndex, List.find?_isSome]
  exact ⟨s, hs, by simpa using h⟩

end Parts

end Game

end OTServBR.Equipment
