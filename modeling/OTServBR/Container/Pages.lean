import Mathlib.Logic.Function.Basic
import OTServBR.Container.Basic
import OTServBR.Lib.Window

/-! # Pages of open containers

A client shows a page of every container that its player keeps open. The first
page comes as a whole, and every change of the container is sent as one item
that is added, updated or removed at a slot of the page.
-/

namespace OTServBR

/-- Conversion to a 16-bit number. -/
def uint16 (n : ℤ) : ℕ := (n % 2 ^ 16).toNat

/-- What a container lies in. -/
inductive ContainerParent
  | none
  | virtualCylinder
  | player
  | cylinder
  deriving DecidableEq, Repr

/-- A container with its items, front first. -/
structure PagedContainer where
  holder : Holder
  unlocked : Bool := true
  pagination : Bool := false
  parent : ContainerParent := .cylinder
  itemlist : List HolderTree

namespace PagedContainer

/-- `ITEM_BROWSEFIELD`, the id of a container that shows the items of a tile. -/
def browseField : UInt16 := 460

variable (c : PagedContainer)

def isBrowseField : Bool := c.holder.item.id == browseField
def size : ℕ := c.itemlist.length
def capacity : ℕ := c.holder.maxSize.toNat

def hasParent : Bool := !c.isBrowseField && c.parent != .player

/-- The items without what they hold. -/
def items : List Item := c.itemlist.map (·.label.item)

/-- A null pointer where the index is not one of an item; a negative one becomes a large one. -/
def getItemByIndex (index : ℤ) : Option Item := if index < 0 then none else c.items[index.toNat]?

/-- The container after a change. -/
def change (x : HolderTree.Change) : PagedContainer :=
  { c with
    holder := { c.holder with totalWeight := c.holder.totalWeight + x.diff }
    itemlist := x.itemlist }

end PagedContainer

/-- A member of `openContainers` that shows the container. -/
structure OpenContainer where
  cid : UInt8
  index : ℕ
  deriving DecidableEq, Repr

/-! ## Packets -/

inductive PageMessage
  | container (capacity : ℕ) (hasParent unlocked pagination : Bool) (containerSize firstIndex : ℕ)
    (itemsToSend : ℕ) (items : List Item)
  /-- Without an item, a null pointer is read. -/
  | addItem (slot : ℕ) (item : Option Item)
  | updateItem (slot : ℕ) (item : Item)
  | removeItem (slot : ℕ) (lastItem : Option Item)

structure PagePacket where
  cid : UInt8
  message : PageMessage

/-- The page that a client shows. -/
structure Page where
  capacity : ℕ
  firstIndex : ℕ
  items : List Item
  deriving DecidableEq

def Page.receive (page : Page) : PageMessage → Page
  | .container capacity _ _ _ _ firstIndex itemsToSend items =>
    ⟨capacity, firstIndex, items.take itemsToSend⟩
  | .addItem _ none => page
  | .addItem slot (some item) =>
    { page with
      items := (page.items.insertIdx (slot - page.firstIndex) item).take page.capacity }
  | .updateItem slot item => { page with items := page.items.set (slot - page.firstIndex) item }
  | .removeItem slot lastItem =>
    { page with items := page.items.eraseIdx (slot - page.firstIndex) ++ lastItem.toList }

def receivePacket (client : UInt8 → Page) (packet : PagePacket) : UInt8 → Page :=
  Function.update client packet.cid ((client packet.cid).receive packet.message)

namespace PagedContainer

variable (c : PagedContainer)

/-- The capacity and the number of items are bytes. -/
def sendContainer (cid : UInt8) (hasParent : Bool) (firstIndex : ℕ) : PagePacket :=
  let containerSize := c.size
  let maxItemsToSend :=
    if c.pagination && firstIndex > 0 then min c.capacity (containerSize - firstIndex)
    else c.capacity
  let items := if firstIndex ≥ containerSize then [] else c.items.window firstIndex maxItemsToSend
  let itemsToSend := if firstIndex ≥ containerSize then 0 else min maxItemsToSend containerSize
  ⟨cid, .container (c.capacity % 2 ^ 8) hasParent c.unlocked c.pagination (uint16 containerSize)
    firstIndex (itemsToSend % 2 ^ 8) items⟩

/-- The slot and the item for an open container; the item is kept for the next one. -/
def addedItem (item : Option Item) (v : OpenContainer) : ℕ × Option Item :=
  if c.isBrowseField then
    let containerSize := uint16 (c.size - 1)
    let pageEnd := uint16 (v.index + c.capacity - 1)
    if containerSize > pageEnd then (pageEnd, c.getItemByIndex pageEnd)
    else (containerSize, item)
  else if v.index ≥ c.capacity then (v.index, c.getItemByIndex (v.index - 1))
  else (v.index, item)

def sendAddContainerItem : Option Item → List OpenContainer → List PagePacket
  | _, [] => []
  | item, v :: openContainers =>
    let (slot, item) := c.addedItem item v
    ⟨v.cid, .addItem slot item⟩ :: sendAddContainerItem item openContainers

def sendUpdateContainerItem (slot : ℕ) (newItem : Item) (openContainers : List OpenContainer) :
    List PagePacket :=
  openContainers.flatMap fun v =>
    let pageEnd := uint16 (v.index + c.capacity)
    if slot < v.index then []
    else if slot ≥ pageEnd then []
    else [⟨v.cid, .updateItem slot newItem⟩]

/-- The last page goes away with its last item. -/
def turnsBack (v : OpenContainer) : Bool := v.index > 0 && v.index ≥ c.size - 1

def firstIndex (v : OpenContainer) : ℕ :=
  if c.turnsBack v then uint16 (v.index - c.capacity) else v.index

def turnBack (v : OpenContainer) : OpenContainer := { v with index := c.firstIndex v }

def sendRemoveContainerItem (slot : ℕ) (openContainers : List OpenContainer) : List PagePacket :=
  openContainers.flatMap fun v =>
    let firstIndex := c.firstIndex v
    (if c.turnsBack v then [c.sendContainer v.cid false firstIndex] else []) ++
      [⟨v.cid, .removeItem (max slot firstIndex) (c.getItemByIndex (c.capacity + firstIndex))⟩]

end PagedContainer

/-! ## Steps -/

/-- A container, the places where a player has it open, and what the client shows of it. -/
structure PageSession where
  container : PagedContainer
  openContainers : List OpenContainer
  client : UInt8 → Page

namespace PageSession

variable (types : Items) (s : PageSession)

def send (packets : List PagePacket) : PageSession :=
  { s with client := packets.foldl receivePacket s.client }

/-- The container is sent to every place where it is open. -/
def sendContainers : PageSession :=
  s.send (s.openContainers.map fun v =>
    s.container.sendContainer v.cid s.container.hasParent v.index)

def onAddContainerItem (item : Item) : PageSession :=
  s.send (s.container.sendAddContainerItem (some item) s.openContainers)

def onUpdateContainerItem (index : ℕ) (newItem : Item) : PageSession :=
  s.send (s.container.sendUpdateContainerItem (uint16 index) newItem s.openContainers)

def onRemoveContainerItem (index : ℕ) : PageSession :=
  { s.send (s.container.sendRemoveContainerItem (uint16 index) s.openContainers) with
    openContainers := s.openContainers.map s.container.turnBack }

/-- A change of the items after which the added item is sent. -/
def add (item : Item) (change : Option HolderTree.Change) : PageSession :=
  match change with
  | none => s
  | some x =>
    let s := { s with container := s.container.change x }
    if s.container.parent ≠ .none ∧ s.container.parent ≠ .virtualCylinder then
      s.onAddContainerItem item
    else s

/-- A change of the items after which the one at an index is sent. -/
def update (index : ℕ) (change : Option HolderTree.Change) : PageSession :=
  match change with
  | none => s
  | some x =>
    let s := { s with container := s.container.change x }
    match s.container.items[index]? with
    | none => s
    | some item => if s.container.parent ≠ .none then s.onUpdateContainerItem index item else s

def addThing (index : ℤ) (thing : HolderTree) : PageSession :=
  s.add thing.label.item
    (Container.addThing types index thing s.container.holder s.container.itemlist)

def addItemBack (item : HolderTree) : PageSession :=
  s.add item.label.item
    (Container.addItemBack types item s.container.holder s.container.itemlist)

def updateThing (index : ℕ) (itemId : UInt16) (count : UInt32) : PageSession :=
  s.update index
    (Container.updateThing types index itemId count s.container.holder s.container.itemlist)

def replaceThing (index : ℕ) (thing : HolderTree) : PageSession :=
  s.update index
    (Container.replaceThing types index thing s.container.holder s.container.itemlist)

/-- Whether a part of a stack is removed. -/
def removesPart (item : Item) (count : UInt32) : Bool :=
  item.isStackable types && count != item.count.toUInt32

/-- A removal is sent before it is made. -/
def removeThing (index : ℕ) (count : UInt32) : PageSession :=
  let change := Container.removeThing types index count s.container.holder s.container.itemlist
  match s.container.items[index]?, change with
  | some item, some x =>
    if removesPart types item count then s.update index change
    else
      let s := if s.container.parent ≠ .none then s.onRemoveContainerItem index else s
      { s with container := s.container.change x }
  | _, _ => s

def playerSeekInContainer (containerId : UInt8) (index : ℕ) : PageSession :=
  if containerId ∉ s.openContainers.map (·.cid) ∨ s.container.pagination = false then s
  else if index % s.container.capacity ≠ 0 ∨ index ≥ s.container.size then s
  else
    let openContainers := s.openContainers.map fun v =>
      if v.cid = containerId then { v with index := index } else v
    { s with openContainers := openContainers }.send
      [s.container.sendContainer containerId s.container.hasParent index]

inductive Action
  | addThing (index : ℤ) (thing : HolderTree)
  | addItemBack (item : HolderTree)
  | updateThing (index : ℕ) (itemId : UInt16) (count : UInt32)
  | replaceThing (index : ℕ) (thing : HolderTree)
  | removeThing (index : ℕ) (count : UInt32)
  | playerSeekInContainer (containerId : UInt8) (index : UInt16)

def apply : Action → PageSession
  | .addThing index thing => s.addThing types index thing
  | .addItemBack item => s.addItemBack types item
  | .updateThing index itemId count => s.updateThing types index itemId count
  | .replaceThing index thing => s.replaceThing types index thing
  | .removeThing index count => s.removeThing types index count
  | .playerSeekInContainer containerId index => s.playerSeekInContainer containerId index.toNat

end PageSession

end OTServBR
