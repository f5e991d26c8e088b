import OTServBR.Container.Basic

/-! # Free slots

What is missing in a container is taken as an unsigned 16-bit number before it is
compared with zero. A container that holds more than its capacity therefore
counts with a wrapped number of slots.
-/

namespace OTServBR

namespace HolderTree

mutual

def getFreeSlots : HolderTree → UInt16
  | .node h itemlist =>
    addFreeSlots (max 0 (h.maxSize.toUInt64 - UInt64.ofNat itemlist.length).toUInt16) itemlist

/-- The loop over the items of a container, with its counter. -/
def addFreeSlots (counter : UInt16) : List HolderTree → UInt16
  | [] => counter
  | item :: items =>
    addFreeSlots
      (if item.label.item.cls.isContainer then counter + max 0 (getFreeSlots item) else counter)
      items

end

mutual

/-- The sum of a number for each container, over the container and all nested ones. -/
def overContainers (f : Holder → List HolderTree → ℕ) : HolderTree → ℕ
  | .node h itemlist => f h itemlist + overNested f itemlist

def overNested (f : Holder → List HolderTree → ℕ) : List HolderTree → ℕ
  | [] => 0
  | item :: items =>
    (if item.label.item.cls.isContainer then overContainers f item else 0) + overNested f items

end

/-- The slots that are left in a container and all nested ones. -/
def freeSlots : HolderTree → ℕ :=
  overContainers fun h itemlist => h.maxSize.toNat - itemlist.length

/-- The items above the capacities of a container and all nested ones. -/
def excess : HolderTree → ℕ :=
  overContainers fun h itemlist => itemlist.length - h.maxSize.toNat

theorem excess_node (h : Holder) (itemlist : List HolderTree) : excess (.node h itemlist) =
    (itemlist.length - h.maxSize.toNat) +
      overNested (fun h itemlist => itemlist.length - h.maxSize.toNat) itemlist := by
  rw [excess, overContainers]

theorem freeSlots_node (h : Holder) (itemlist : List HolderTree) : freeSlots (.node h itemlist) =
    (h.maxSize.toNat - itemlist.length) +
      overNested (fun h itemlist => h.maxSize.toNat - itemlist.length) itemlist := by
  rw [freeSlots, overContainers]

/-- The comparison with zero does nothing to an unsigned number. -/
theorem max_zero_eq (x : UInt16) : max 0 x = x :=
  if_pos (UInt16.le_iff_toNat_le.mpr (Nat.zero_le _))

/-- A container without its contents counts with what is missing in it, modulo 2¹⁶. -/
theorem toNat_missing (maxSize : UInt32) (n : ℕ) :
    (max 0 (maxSize.toUInt64 - UInt64.ofNat n).toUInt16).toNat + (n - maxSize.toNat) ≡
      maxSize.toNat - n [MOD 2 ^ 16] := by
  have hsize := maxSize.toNat_lt
  rw [max_zero_eq, UInt64.toNat_toUInt16, UInt64.toNat_sub, UInt64.toNat_ofNat',
    UInt32.toNat_toUInt64, Nat.ModEq]
  omega

theorem toNat_getFreeSlots (t : HolderTree) :
    (getFreeSlots t).toNat + excess t ≡ freeSlots t [MOD 2 ^ 16] := by
  induction t using RoseTree.induct with
  | node h itemlist ih =>
    rw [getFreeSlots, excess_node, freeSlots_node]
    have hcounter := toNat_missing h.maxSize itemlist.length
    generalize max 0 (h.maxSize.toUInt64 - UInt64.ofNat itemlist.length).toUInt16 = counter
      at hcounter ⊢
    generalize itemlist.length - h.maxSize.toNat = surplus at hcounter ⊢
    generalize h.maxSize.toNat - itemlist.length = free at hcounter ⊢
    -- the counter goes on from what the items before have left
    induction itemlist generalizing counter surplus free with
    | nil => exact hcounter
    | cons item items ihitems =>
      rw [addFreeSlots, overNested, overNested, ← Nat.add_assoc surplus, ← Nat.add_assoc free]
      refine ihitems (fun t ht => ih t (List.mem_cons_of_mem _ ht)) _ _ _ ?_
      split
      · have hitem := ih item List.mem_cons_self
        rw [excess, freeSlots, Nat.ModEq] at hitem
        rw [Nat.ModEq] at hcounter ⊢
        rw [max_zero_eq, UInt16.toNat_add]
        omega
      · exact hcounter

/-- The free slots are counted when the items above the capacities are a multiple of 2¹⁶, as when
there are none. -/
theorem getFreeSlots_eq_iff (t : HolderTree) (h : freeSlots t < 2 ^ 16) :
    (getFreeSlots t).toNat = freeSlots t ↔ 2 ^ 16 ∣ excess t := by
  have hslots := toNat_getFreeSlots t
  have hlt := (getFreeSlots t).toNat_lt
  rw [Nat.ModEq] at hslots
  omega

/-- A bag of a given capacity with some items. -/
def bagOf (maxSize : UInt32) (items : List HolderTree) : HolderTree :=
  .node { item := { cls := .container, id := 1987 }, maxSize := maxSize } items

/-- A backpack of four slots with an empty bag of two: three slots and two. -/
theorem getFreeSlots_eq_nested :
    (getFreeSlots (bagOf 4 [bagOf 2 []])).toNat = freeSlots (bagOf 4 [bagOf 2 []]) :=
  (getFreeSlots_eq_iff _ (by decide)).mpr (by decide)

/-- A bag of one slot with two items has 65535 free slots. -/
theorem getFreeSlots_of_overfull :
    ¬∀ t : HolderTree, freeSlots t < 2 ^ 16 → (getFreeSlots t).toNat = freeSlots t := by
  intro h
  exact absurd (h (bagOf 1 [bagOf 0 [], bagOf 0 []]) (by decide)) (by decide)

end HolderTree

end OTServBR
