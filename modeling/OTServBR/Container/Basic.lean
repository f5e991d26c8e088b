import OTServBR.Item.Tree

/-! # Containers

A container keeps the total weight of what it holds, and every change of a
container is passed on to the containers around it. Inboxes, depot chests and
rewards have another parent than the container they lie in: they hide the locker
or chest that holds them.
-/

namespace OTServBR

/-- How many containers `getParent` of a class leaves out. -/
def ItemClass.hiddenParents : ItemClass → ℕ
  | inbox | reward => 1
  | depotChest => 2
  | _ => 0

/-- An item with the members of `Container`. -/
structure Holder where
  item : Item
  maxSize : UInt32 := 0
  totalWeight : UInt32 := 0
  deriving DecidableEq

abbrev HolderTree := RoseTree Holder

namespace HolderTree

def getWeight (types : Items) (t : HolderTree) : UInt32 :=
  t.label.item.getWeight types + if t.label.item.cls.isContainer then t.label.totalWeight else 0

/-- What an operation does to a container: the items it holds afterwards, the difference that
is passed to `updateItemWeight`, and the items that lose their parent. -/
structure Change where
  itemlist : List HolderTree
  diff : UInt32
  released : List HolderTree := []

/-- What a change in a tree comes to. The number counts the calls of `getParent` that are still
to be made from the parent of the tree; the weight of a parent is updated when there are none. -/
structure Updated where
  tree : HolderTree
  pending : ℕ
  change : Change

/-- Apply a change to the container at a path and walk up with `updateItemWeight`. -/
def updateAt (f : Holder → List HolderTree → Option Change) : List ℕ → HolderTree → Option Updated
  | [], .node h itemlist =>
    if h.item.cls.isContainer then
      (f h itemlist).map fun change =>
        { tree := .node { h with totalWeight := h.totalWeight + change.diff } change.itemlist
          pending := h.item.cls.hiddenParents
          change := change }
    else none
  | k :: path, .node h itemlist =>
    match itemlist[k]? with
    | none => none
    | some child =>
      (updateAt f path child).map fun u =>
        { tree := .node
            (if u.pending = 0 then { h with totalWeight := h.totalWeight + u.change.diff } else h)
            (itemlist.set k u.tree)
          pending := h.item.cls.hiddenParents + (u.pending - 1)
          change := u.change }

end HolderTree

/-- A child node of a map file: `none` where the loading of the item fails. -/
abbrev ItemNode := RoseTree (Option (Item × UInt32))

mutual

def unserializeItem (types : Items) : ItemNode → Option HolderTree
  | .node none _ => none
  | .node (some (item, maxSize)) children =>
    if item.cls.isContainer then
      match unserializeChildren types children with
      | (itemlist, true) =>
        some (.node
          { item := item, maxSize := maxSize,
            totalWeight := (itemlist.map (HolderTree.getWeight types)).sum } itemlist)
      | (_, false) => none
    else some (.node { item := item } [])

/-- The items that are loaded until the first failure, and whether there was none. -/
def unserializeChildren (types : Items) : List ItemNode → List HolderTree × Bool
  | [] => ([], true)
  | node :: nodes =>
    match unserializeItem types node with
    | none => ([], false)
    | some t =>
      let (itemlist, ok) := unserializeChildren types nodes
      (t :: itemlist, ok)

end

namespace Container

open HolderTree

variable (types : Items)

def addThing (index : ℤ) (item : HolderTree) (h : Holder) (itemlist : List HolderTree) :
    Option Change :=
  if index ≥ h.maxSize.toInt32.toInt then none
  else some { itemlist := item :: itemlist, diff := item.getWeight types }

def addItemBack (item : HolderTree) (_ : Holder) (itemlist : List HolderTree) : Option Change :=
  some { itemlist := itemlist ++ [item], diff := item.getWeight types }

def internalAddThing (item : HolderTree) (_ : Holder) (itemlist : List HolderTree) :
    Option Change :=
  some { itemlist := item :: itemlist, diff := item.getWeight types }

/-- Change the item itself and leave what it holds. -/
def mapItem (f : Item → Item) : HolderTree → HolderTree
  | .node h itemlist => .node { h with item := f h.item } itemlist

def updateThing (index : ℕ) (itemId : UInt16) (count : UInt32) (_ : Holder)
    (itemlist : List HolderTree) : Option Change :=
  match itemlist[index]? with
  | none => none
  | some item =>
    let oldWeight := item.getWeight types
    let item := mapItem (fun i => (i.setID types itemId).setSubType types count.toUInt16) item
    some { itemlist := itemlist.set index item, diff := -oldWeight + item.getWeight types }

def replaceThing (index : ℕ) (item : HolderTree) (_ : Holder) (itemlist : List HolderTree) :
    Option Change :=
  match itemlist[index]? with
  | none => none
  | some replacedItem =>
    some
      { itemlist := itemlist.set index item
        diff := -replacedItem.getWeight types + item.getWeight types
        released := [replacedItem] }

def removeThing (index : ℕ) (count : UInt32) (_ : Holder) (itemlist : List HolderTree) :
    Option Change :=
  match itemlist[index]? with
  | none => none
  | some item =>
    let itemCount := item.label.item.count.toUInt32
    if item.label.item.isStackable types && count != itemCount then
      let newCount := (max 0 (itemCount - count).toInt32.toInt).toNat
      let oldWeight := item.getWeight types
      let item := mapItem (·.setItemCount newCount) item
      some { itemlist := itemlist.set index item, diff := -oldWeight + item.getWeight types }
    else
      some
        { itemlist := itemlist.eraseIdx index
          diff := -item.getWeight types
          released := [item] }

/-- Every loaded item is added at the back with its weight. -/
def unserializeItemNode (nodes : List ItemNode) (_ : Holder) (itemlist : List HolderTree) :
    Option Change :=
  let loaded := (unserializeChildren types nodes).1
  some { itemlist := itemlist ++ loaded, diff := (loaded.map (HolderTree.getWeight types)).sum }

end Container

/-! ## Forests -/

/-- The items that lie in no container, with all that they hold. -/
abbrev Forest := List HolderTree

namespace Forest

/-- Change a container of the forest; what it releases lies in no container any more. -/
def update (forest : Forest) (root : ℕ) (path : List ℕ)
    (f : Holder → List HolderTree → Option HolderTree.Change) : Option Forest :=
  match forest[root]? with
  | none => none
  | some t => (t.updateAt f path).map fun u => forest.set root u.tree ++ u.change.released

/-- An operation on the container at a path below a root; an item that is added is a root too. -/
inductive Op
  | addThing (root : ℕ) (path : List ℕ) (index : ℤ) (thing : ℕ)
  | addItemBack (root : ℕ) (path : List ℕ) (item : ℕ)
  | internalAddThing (root : ℕ) (path : List ℕ) (thing : ℕ)
  | updateThing (root : ℕ) (path : List ℕ) (index : ℕ) (itemId : UInt16) (count : UInt32)
  | replaceThing (root : ℕ) (path : List ℕ) (index : ℕ) (thing : ℕ)
  | removeThing (root : ℕ) (path : List ℕ) (index : ℕ) (count : UInt32)
  | unserializeItemNode (root : ℕ) (path : List ℕ) (nodes : List ItemNode)

/-- Add another root to a container. -/
def attach (forest : Forest) (root : ℕ) (path : List ℕ) (thing : ℕ)
    (f : HolderTree → Holder → List HolderTree → Option HolderTree.Change) : Option Forest :=
  if thing = root then none
  else
    match forest[thing]? with
    | none => none
    | some t => (forest.update root path (f t)).map (·.eraseIdx thing)

def perform (types : Items) (forest : Forest) : Op → Option Forest
  | .addThing root path index thing =>
    forest.attach root path thing (Container.addThing types index)
  | .addItemBack root path item => forest.attach root path item (Container.addItemBack types)
  | .internalAddThing root path thing =>
    forest.attach root path thing (Container.internalAddThing types)
  | .updateThing root path index itemId count =>
    forest.update root path (Container.updateThing types index itemId count)
  | .replaceThing root path index thing =>
    forest.attach root path thing (Container.replaceThing types index)
  | .removeThing root path index count =>
    forest.update root path (Container.removeThing types index count)
  | .unserializeItemNode root path nodes =>
    forest.update root path (Container.unserializeItemNode types nodes)

/-- Operations that are not possible change nothing. -/
def apply (types : Items) (forest : Forest) (op : Op) : Forest :=
  (forest.perform types op).getD forest

/-- Items as they are created, the containers among them empty. -/
def created (items : List (Item × UInt32)) : Forest :=
  items.map fun (item, maxSize) => .node { item := item, maxSize := maxSize } []

def run (types : Items) (items : List (Item × UInt32)) (ops : List Op) : Forest :=
  ops.foldl (apply types) (created items)

end Forest

end OTServBR
