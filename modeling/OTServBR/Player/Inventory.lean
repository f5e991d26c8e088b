import Mathlib.Data.UInt
import OTServBR.Lib.Prune
import OTServBR.Item.Tree

/-! # Inventories

What a player wears and, in containers, carries. Items of a type are counted in
one traversal and collected in another one, and what was collected is removed
item by item.
-/

namespace OTServBR.Carried

/-- An item behind a pointer. -/
structure Thing where
  ref : ℕ
  item : Item
  deriving DecidableEq

/-- A thing with what it holds. -/
abbrev ThingTree := RoseTree Thing

/-- Only containers hold things. -/
def ThingTree.Closed (t : ThingTree) : Prop :=
  t.All fun thing itemlist => thing.item.cls.isContainer = false → itemlist = []

instance (t : ThingTree) : Decidable t.Closed := inferInstanceAs (Decidable (RoseTree.All _ t))

/-! ## Iterating over a container -/

/-- The containers to go through (`over`), the one at hand in front, and what of its list is
left. -/
structure ContainerIterator where
  overList : List ThingTree
  cur : List ThingTree

namespace ContainerIterator

variable (it : ContainerIterator)

def hasNext : Bool := !it.overList.isEmpty

def advance : ContainerIterator :=
  match it.cur with
  | [] => it
  | i :: cur =>
    let overList :=
      if i.label.item.cls.isContainer && !i.children.isEmpty then it.overList ++ [i]
      else it.overList
    if cur.isEmpty then
      match overList.tail with
      | [] => { overList := [], cur := [] }
      | c :: overList => { overList := c :: overList, cur := c.children }
    else { overList := overList, cur := cur }

/-- The things that a loop goes through in a number of rounds. -/
def loop : ℕ → ContainerIterator → List Thing
  | 0, _ => []
  | n + 1, it =>
    if it.hasNext then (it.cur.head?.map RoseTree.label).toList ++ loop n it.advance else []

end ContainerIterator

namespace ThingTree

variable (t : ThingTree)

def iterator : ContainerIterator :=
  if t.children.isEmpty then { overList := [], cur := [] }
  else { overList := [t], cur := t.children }

/-- What a loop over the container goes through; there are no more rounds than nodes. -/
def contents : List Thing := (iterator t).loop t.size

end ThingTree

/-! ## Counting and removing -/

/-- `Item::countByType`, in 32 bits. -/
def Thing.countByType (types : Items) (subType : ℤ) (thing : Thing) : UInt32 :=
  UInt32.ofNat (thing.item.countByType types subType)

/-- A stack without some of its items. -/
def Thing.take (thing : Thing) (count : ℕ) : Thing :=
  { thing with item := thing.item.setItemCount (thing.item.getItemCount - count) }

theorem Thing.cls_take (thing : Thing) (count : ℕ) :
    (thing.take count).item.cls = thing.item.cls := rfl

/-- The slots of a player, from `CONST_SLOT_FIRST` to `CONST_SLOT_LAST`. -/
structure Inventory where
  slots : List (Option ThingTree)
  closed : ∀ slot ∈ slots, ∀ t ∈ slot, t.Closed

/-- What `removeItemOfType` has collected, and whether it is enough. -/
structure Search where
  itemList : List Thing := []
  count : UInt32 := 0
  found : Bool := false

/-- A search ends as soon as enough is found. -/
def Search.add (types : Items) (amount : UInt32) (subType : ℤ) (s : Search) (thing : Thing) :
    Search :=
  if s.found then s
  else
    let itemCount := thing.countByType types subType
    if itemCount = 0 then s
    else
      { itemList := s.itemList ++ [thing]
        count := s.count + itemCount
        found := amount ≤ s.count + itemCount }

namespace Inventory

variable (types : Items) (inv : Inventory) (itemId : UInt16) (amount : UInt32) (subType : ℤ)

def getItemTypeCount : UInt32 :=
  let count (n : UInt32) (thing : Thing) :=
    if thing.item.id = itemId then n + thing.countByType types subType else n
  inv.slots.foldl (fun n slot =>
    match slot with
    | none => n
    | some item =>
      let n := count n item.label
      if item.label.item.cls.isContainer then item.contents.foldl count n else n) 0

/-- Replace a thing by another one of its class. -/
def update (thing thing' : Thing) (h : thing'.item.cls = thing.item.cls) : Inventory where
  slots := inv.slots.map fun slot =>
    slot.map (RoseTree.map fun t => if t = thing then thing' else t)
  closed := by
    intro slot hslot t ht
    obtain ⟨old, hold, rfl⟩ := List.mem_map.mp hslot
    obtain ⟨told, htold, rfl⟩ := Option.map_eq_some_iff.mp ht
    refine RoseTree.all_map (fun t' ht' => ?_) (inv.closed old hold told htold)
    split at ht'
    · next heq => rwa [heq, ← h]
    · exact ht'

/-- Take a thing out, with what it holds. -/
def detach (p : Thing → Bool) : Inventory where
  slots := inv.slots.map fun slot => slot.bind (RoseTree.prune p)
  closed := by
    intro slot hslot t ht
    obtain ⟨old, hold, rfl⟩ := List.mem_map.mp hslot
    obtain ⟨t', ht', ht⟩ := Option.bind_eq_some_iff.mp ht
    exact RoseTree.all_prune (inv.closed old hold t' ht') t ht

/-- `removeThing` of the player or of the container that the thing is in. -/
def removeThing (thing : Thing) (count : ℕ) : Inventory :=
  if thing.item.isStackable types && count != thing.item.getItemCount then
    inv.update thing (thing.take count) (thing.cls_take count)
  else inv.detach (· == thing)

/-- A thing that was taken out together with its container is removed from that container, so
that nothing happens to the inventory. -/
def internalRemoveItem (thing : Thing) (count : ℕ) : Inventory :=
  -- queryRemove
  if count = 0 ∨ thing.item.isStackable types ∧ thing.item.getItemCount < count then inv
  else if thing.item.cls.canRemove = false then inv
  else inv.removeThing types thing count

def internalRemoveItems : Inventory → List Thing → UInt32 → Bool → Inventory
  | inv, [], _, _ => inv
  | inv, thing :: itemList, amount, true =>
    if amount.toNat < thing.item.getItemCount then
      inv.internalRemoveItem types thing amount.toNat
    else
      internalRemoveItems (inv.internalRemoveItem types thing thing.item.getItemCount) itemList
        (amount - UInt32.ofNat thing.item.getItemCount) true
  | inv, thing :: itemList, amount, false =>
    internalRemoveItems (inv.internalRemoveItem types thing thing.item.getItemCount) itemList
      amount false

/-- The part of the search in one slot. -/
def searchSlot (ignoreEquipped : Bool) (s : Search) (slot : Option ThingTree) : Search :=
  match slot with
  | none => s
  | some item =>
    if !ignoreEquipped && item.label.item.id == itemId then s.add types amount subType item.label
    else if item.label.item.cls.isContainer then
      item.contents.foldl (fun s thing =>
        if thing.item.id = itemId then s.add types amount subType thing else s) s
    else s

/-- The result, and the inventory afterwards. -/
def removeItemOfType (ignoreEquipped : Bool) : Bool × Inventory :=
  if amount = 0 then (true, inv)
  else
    let s := inv.slots.foldl (searchSlot types itemId amount subType ignoreEquipped) {}
    if s.found then
      (true, inv.internalRemoveItems types s.itemList amount (types.getItemType itemId).stackable)
    else (false, inv)

end Inventory

end OTServBR.Carried
