import OTServBR.Lib.RoseTree
import OTServBR.Item.Basic

/-! # Trees of items

A container holds a list of items, front first, and these may be containers
again. The shape of a tree keeps the ids, the nesting and the order of the
items and forgets everything else.
-/

namespace OTServBR

/-- An item with what it holds. -/
abbrev ItemTree := RoseTree Item

namespace ItemTree

/-- Ids, nesting and order. -/
def shape (t : ItemTree) : RoseTree UInt16 := t.map Item.id

@[simp] theorem shape_node (i : Item) (l : List ItemTree) :
    shape (.node i l) = .node i.id (l.map shape) :=
  RoseTree.map_node Item.id i l

/-- Every item has the class of its type, its type is created under its own id, only
containers hold items, and the count of custom attributes is a 64-bit size. -/
def WellFormed (types : Items) : ItemTree → Prop :=
  RoseTree.All fun i l =>
    i.cls = Item.classOf (types.getItemType i.id) ∧
    (∃ c, Item.createItem types i.id = some c ∧ c.id = i.id) ∧
    i.getAttributes.getCustomAttributeMap.length < 256 ^ 8 ∧
    (i.cls.isContainer = false → l = [])

end ItemTree

namespace Item

variable {types : Items}

@[simp] theorem cls_construct (cls : ItemClass) (id count : UInt16) :
    (construct types cls id count).cls = cls := by
  unfold construct setDefaultDuration
  dsimp only
  split_ifs <;> rfl

/-- A created item is one that its class constructs. -/
theorem exists_construct_of_createItem {id count : UInt16} {c : Item}
    (h : createItem types id count = some c) :
    ∃ type count', c = construct types (classOf (types.getItemType id)) type count' := by
  unfold createItem at h
  dsimp only at h
  by_cases hd : ((types.getItemType id).group == .deprecated) = true
  · simp [hd] at h
  by_cases h0 : ((types.getItemType id).id == 0) = true
  · simp [hd, h0] at h
  rw [if_neg hd, if_neg h0] at h
  split at h
  · next hcls =>
    rw [beq_iff_eq.mp hcls]
    exact ⟨_, _, (Option.some.inj h).symm⟩
  · exact ⟨_, _, (Option.some.inj h).symm⟩

/-- A created item has the class of its type. -/
theorem cls_of_createItem {id count : UInt16} {c : Item} (h : createItem types id count = some c) :
    c.cls = classOf (types.getItemType id) := by
  obtain ⟨type, count', rfl⟩ := exists_construct_of_createItem h
  exact cls_construct _ _ _

end Item

end OTServBR
