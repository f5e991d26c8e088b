import OTServBR.Tile.Index

/-! # What an operation exchanges

An operation on a tile takes at most one item off it and brings at most one,
up to the counts of stacks. The flags are reset for the one and then set for
the other, and the reset asks for the properties of the items that stay, with
or without the new one.
-/

namespace OTServBR

namespace Tile

variable (types : Items) (t : Tile)

/-! ## Items that go, come and stay -/

/-- The item that `removeItem` takes off. -/
def removed (i : TileItem) (count : UInt32) : Option TileItem :=
  let it := i.item.getType types
  if t.getThingIndex types (.item i) = -1 then none
  else if t.ground.map (·.ref) = some i.ref || it.alwaysOnTop then some i
  else if it.stackable && count.toNat != i.item.getItemCount then none
  else some i

/-- The item in whose place `replaceThing` puts another one. -/
def replaced (index : ℕ) : Option TileItem := (t.getThing index).bind Thing.getItem

/-- The old item that a new splash or magic field drives out. -/
def drivenOut (i : TileItem) : Option TileItem :=
  let it := i.item.getType types
  if it.alwaysOnTop then
    if it.isSplash then
      (t.items.topItems.find? fun j => (j.item.getType types).isSplash).bind fun j =>
        t.removed types j 1
    else none
  else if it.isMagicField then
    match t.items.downItems.find? fun j => j.item.cls == .magicField with
    | some oldField =>
      if (oldField.item.getType types).replaceable then t.removed types oldField 1 else none
    | none => none
  else none

/-- Whether an old magic field keeps a new one off. -/
def keptOff (i : TileItem) : Bool :=
  let it := i.item.getType types
  !it.alwaysOnTop && it.isMagicField &&
    match t.items.downItems.find? fun j => j.item.cls == .magicField with
    | some oldField => !(oldField.item.getType types).replaceable
    | none => false

/-- The item that an operation takes off the tile. -/
def taken : Op → Option TileItem
  | .addThing (.item i) =>
    if 0xFFFF ≤ t.items.size then none
    else if (i.item.getType types).isGroundTile then t.ground
    else t.drivenOut types i
  | .removeThing (.item i) count => t.removed types i count
  | .updateThing (.item i) _ _ => if t.getThingIndex types (.item i) = -1 then none else some i
  | .replaceThing index (.item _) => t.replaced index
  | _ => none

/-- The item that an operation brings to the tile. -/
def given : Op → Option TileItem
  | .addThing (.item i) =>
    if 0xFFFF ≤ t.items.size then none
    else if (i.item.getType types).isGroundTile then some i
    else if t.keptOff types i then none
    else some i
  | .internalAddThing (.item i) =>
    if (i.item.getType types).isGroundTile then if t.ground.isSome then none else some i
    else if 0xFFFF ≤ t.items.size then none
    else some i
  | .updateThing (.item i) itemId count =>
    if t.getThingIndex types (.item i) = -1 then none
    else some { i with item := updated types itemId count i.item }
  | .replaceThing index (.item i) => (t.replaced index).map fun _ => i
  | _ => none

/-- Whether some item of the tile meets a test. -/
def has (p : Item → Bool) : Bool := t.allItems.any fun i => p i.item

/-- Whether some item meets a test when one has been taken off. -/
def hasBut (taken : Option TileItem) (p : Item → Bool) : Bool :=
  t.allItems.any fun i => taken.all (·.ref != i.ref) && p i.item

/-- The flags after an exchange. -/
def exchangeFlags (taken given : Option TileItem) (others : ItemProperty → Bool)
    (flags : TileFlags) : TileFlags :=
  let flags := taken.elim flags fun i => resetTileFlags types i.item others flags
  given.elim flags fun i => setTileFlags types i.item flags

/-- A test that does not depend on the counts of stacks. -/
def CountFree (p : Item → Bool) : Prop := ∀ i n, p (i.setItemCount n) = p i

/-- What an operation does to the items and the flags. -/
structure Exchange (t t' : Tile) (taken given : Option TileItem) : Prop where
  mem : ∀ i ∈ taken, i ∈ t.allItems
  has : ∀ p, CountFree p → t'.has p = (given.any (fun i => p i.item) || t.hasBut taken p)
  flags : ∃ others : ItemProperty → Bool,
    (∀ prop, t.hasBut taken (·.hasProperty types prop) = true → others prop = true) ∧
    (∀ prop, others prop = true → given.any (·.item.hasProperty types prop) = true ∨
      t.hasBut taken (·.hasProperty types prop) = true) ∧
    t'.flags = exchangeFlags types taken given others t.flags

/-- What happens when at most one item leaves. -/
structure Leaves (t t' : Tile) (taken : Option TileItem) : Prop where
  mem : ∀ i ∈ taken, i ∈ t.allItems
  has : ∀ p, CountFree p → t'.has p = t.hasBut taken p
  flags : t'.flags = exchangeFlags types taken none
    (fun prop => t.hasBut taken (·.hasProperty types prop)) t.flags

variable {types t}

/-! ## Tests on parts of a tile -/

theorem hasBut_none (p : Item → Bool) : t.hasBut none p = t.has p := by
  simp [hasBut, has]

/-- A tile has what the item that goes has and what the others have. -/
theorem has_eq_of_mem {taken : Option TileItem} (hrefs : (t.allItems.map (·.ref)).Nodup)
    (hmem : ∀ i ∈ taken, i ∈ t.allItems) (p : Item → Bool) :
    t.has p = (taken.any (fun i => p i.item) || t.hasBut taken p) := by
  cases taken with
  | none => rw [hasBut_none, Option.any_none, Bool.false_or]
  | some i =>
    have hi := hmem i rfl
    rw [Bool.eq_iff_iff]
    simp only [has, hasBut, Option.any_some, Option.all_some, Bool.or_eq_true, List.any_eq_true,
      Bool.and_eq_true, bne_iff_ne]
    constructor
    · rintro ⟨j, hj, hp⟩
      by_cases href : i.ref = j.ref
      · obtain rfl := List.inj_on_of_nodup_map hrefs hi hj href
        exact .inl hp
      · exact .inr ⟨j, hj, href, hp⟩
    · rintro (hp | ⟨j, hj, -, hp⟩)
      · exact ⟨i, hi, hp⟩
      · exact ⟨j, hj, hp⟩

/-- With the addresses apart, the first item under an address is the only one. -/
theorem eraseP_eq_filter {l : List TileItem} (hl : (l.map (·.ref)).Nodup) (r : ℕ) :
    l.eraseP (·.ref == r) = l.filter (·.ref != r) := by
  induction l with
  | nil => rfl
  | cons i l ih =>
    obtain ⟨hi, hl⟩ := List.nodup_cons.1 hl
    by_cases hr : i.ref = r
    · have hrest : l.filter (·.ref != r) = l := by
        rw [List.filter_eq_self]
        intro j hj
        have hne : j.ref ≠ r := fun heq => hi (List.mem_map.2 ⟨j, hj, heq.trans hr.symm⟩)
        simpa using hne
      rw [List.eraseP_cons_of_pos (by simpa using hr), List.filter_cons_of_neg (by simpa using hr),
        hrest]
    · rw [List.eraseP_cons_of_neg (by simpa using hr), List.filter_cons_of_pos (by simpa using hr),
        ih hl]

theorem ref_ne_of_append {l l' : List TileItem} (h : ((l ++ l').map (·.ref)).Nodup) {j : TileItem}
    (hi : i ∈ l) (hj : j ∈ l') : i.ref ≠ j.ref := by
  rw [List.map_append] at h
  exact (List.nodup_append.1 h).2.2 _ (List.mem_map_of_mem hi) _ (List.mem_map_of_mem hj)

theorem getItem_thingBehind (pos : ℕ) : (t.thingBehind pos).bind Thing.getItem =
    (t.replacePosition pos).bind (t.items.items[·]?) := by
  unfold thingBehind replacePosition
  dsimp only
  split
  · cases h : t.items.items[t.items.downItemCount + pos]? <;> rw [Option.bind_some, h] <;> rfl
  split
  · cases t.creatures[pos - t.items.getTopItemCount]? <;> rfl
  split
  · cases h : t.items.items[pos - t.items.getTopItemCount - t.creatures.length]? <;>
      rw [Option.bind_some, h] <;> rfl
  · rfl

/-- The test of the items that stay is one of the tile without the item. -/
theorem has_of_filter {t' : Tile} (h : t'.allItems = t.allItems.filter (·.ref != i.ref))
    (p : Item → Bool) : t'.has p = t.hasBut (some i) p := by
  rw [has, hasBut, h, List.any_filter]
  simp only [Option.all_some, bne_comm]

theorem Leaves.of_eq {t' : Tile} (hitems : t'.allItems = t.allItems) (hflags : t'.flags = t.flags) :
    Leaves types t t' none := by
  constructor
  · simp
  · intro p _
    rw [hasBut_none, Tile.has, hitems, Tile.has]
  · exact hflags

theorem Leaves.refl : Leaves types t t none := .of_eq rfl rfl

theorem leaves_of_filter {t' : Tile} (hi : i ∈ t.allItems)
    (hitems : t'.allItems = t.allItems.filter (·.ref != i.ref)) (hflags : t'.flags = t.flags) :
    Leaves types t (t'.resetFlagsOf types i) (some i) := by
  refine ⟨fun j hj => Option.some.inj hj ▸ hi, fun p _ => has_of_filter hitems p, ?_⟩
  have hothers : t'.hasProperty types i.ref =
      fun prop => t.hasBut (some i) (·.hasProperty types prop) := by
    funext prop
    rw [hasProperty, hitems, List.any_filter, hasBut]
    congr 1
    funext j
    rw [Option.all_some, bne_comm, ← Bool.and_assoc, Bool.and_self]
  rw [Tile.resetFlagsOf, hothers, hflags]
  rfl

/-- An item may leave before a new one comes. -/
theorem Leaves.exchange {t₁ t' : Tile} {taken : Option TileItem} (h : Leaves types t t₁ taken)
    (hitems : t'.allItems.Perm (i :: t₁.allItems)) (hflags : t'.flags = t₁.flags) :
    Exchange types t (t'.setFlagsOf types i) taken (some i) := by
  constructor
  · exact h.mem
  · intro p hp
    have hhas : (t'.setFlagsOf types i).has p = (p i.item || t₁.has p) := hitems.any_eq
    rw [hhas, h.has p hp, Option.any_some]
  · refine ⟨_, fun prop => id, fun prop => .inr, ?_⟩
    rw [Tile.setFlagsOf, hflags, h.flags]
    rfl

theorem Leaves.exchange_none {t' : Tile} {taken : Option TileItem} (h : Leaves types t t' taken) :
    Exchange types t t' taken none := by
  constructor
  · exact h.mem
  · exact h.has
  · exact ⟨_, fun prop => id, fun prop => .inr, h.flags⟩

theorem Exchange.refl : Exchange types t t none none := Leaves.refl.exchange_none

theorem exchange_creatures (creatures : List ℕ) :
    Exchange types t { t with creatures := creatures } none none := by
  have hleaves : Leaves types t { t with creatures := creatures } none := .of_eq rfl rfl
  exact hleaves.exchange_none

/-- A new item takes the place of an old one, and the flags are reset when it is there already. -/
theorem exchange_of_replace {t' : Tile} {old : TileItem} (hold : old ∈ t.allItems)
    (hnew : i.ref ∉ t.allItems.map (·.ref))
    (hitems : t'.allItems.Perm (i :: t.allItems.filter (·.ref != old.ref)))
    (hflags : t'.flags = t.flags) :
    Exchange types t ((t'.resetFlagsOf types old).setFlagsOf types i) (some old) (some i) := by
  have hany : ∀ p : TileItem → Bool, t'.allItems.any p =
      (p i || t.allItems.any fun j => old.ref != j.ref && p j) := by
    intro p
    rw [hitems.any_eq, List.any_cons, List.any_filter]
    simp only [bne_comm]
  have hne : (i.ref != old.ref) = true :=
    bne_iff_ne.2 fun heq => hnew (List.mem_map.2 ⟨old, hold, heq.symm⟩)
  have hothers : ∀ prop, t'.hasProperty types old.ref prop =
      (i.item.hasProperty types prop || t.hasBut (some old) (·.hasProperty types prop)) := by
    intro prop
    rw [hasProperty, hany, hne, Bool.true_and]
    refine congrArg _ (congrArg (t.allItems.any ·) (funext fun j => ?_))
    rw [Option.all_some, bne_comm, ← Bool.and_assoc, Bool.and_self]
  constructor
  · exact fun j hj => Option.some.inj hj ▸ hold
  · exact fun p _ => hany fun j => p j.item
  · refine ⟨t'.hasProperty types old.ref, ?_, ?_, ?_⟩
    · intro prop hprop
      rw [hothers, hprop, Bool.or_true]
    · intro prop hprop
      rwa [hothers, Bool.or_eq_true] at hprop
    · rw [Tile.setFlagsOf, Tile.resetFlagsOf, hflags]
      rfl

namespace Indexed

variable {kept : Prop} (h : Indexed types kept t)

include h

theorem allItems_eq : t.allItems = (t.ground.toList ++ t.items.downItems) ++ t.items.topItems := by
  rw [allItems, h.splits.items, List.append_assoc, h.splits.downItems_eq, h.splits.topItems_eq]

theorem allItems_removeGround (hground : t.ground = some i) :
    ({ t with ground := none } : Tile).allItems = t.allItems.filter (·.ref != i.ref) := by
  rw [← eraseP_eq_filter h.refs, allItems, allItems, hground]
  simp

theorem allItems_eraseTop (hi : i ∈ t.items.topItems) :
    ({ t with items := t.items.eraseTop i.ref } : Tile).allItems =
      t.allItems.filter (·.ref != i.ref) := by
  have hrefs := h.refs
  rw [← eraseP_eq_filter h.refs]
  rw [h.allItems_eq] at hrefs ⊢
  rw [List.eraseP_append_right]
  · rw [allItems, (h.splits.eraseTop i.ref).items, List.append_assoc]
  · intro j hj
    simpa using ref_ne_of_append hrefs hj hi

theorem allItems_eraseDown (hi : i ∈ t.items.downItems) :
    ({ t with items := t.items.eraseDown i.ref } : Tile).allItems =
      t.allItems.filter (·.ref != i.ref) := by
  have hrefs := h.refs
  rw [← eraseP_eq_filter h.refs]
  rw [h.allItems_eq, List.append_assoc] at hrefs ⊢
  rw [List.eraseP_append_right, List.eraseP_append_left _ _ hi]
  · rw [allItems, (h.splits.eraseDown ⟨i, hi, rfl⟩).items]
  · simp
  · intro j hj
    simpa using ref_ne_of_append hrefs hj (List.mem_append_left _ hi)

/-- An item that has an index lies on the tile, at least its address. -/
theorem ref_mem_of_getThingIndex (hindex : t.getThingIndex types (.item i) ≠ -1) :
    i.ref ∈ t.allItems.map (·.ref) := by
  by_cases hground : t.ground.map (·.ref) = some i.ref
  · obtain ⟨g, hg, href⟩ := Option.map_eq_some_iff.1 hground
    exact List.mem_map.2 ⟨g, by simp [allItems, hg], href⟩
  · obtain ⟨j, hj, href⟩ := exists_of_getThingIndex hindex hground
    refine List.mem_map.2 ⟨j, h.mem_allItems.2 (.inr ?_), href⟩
    split at hj
    · exact .inr hj
    · exact .inl hj

/-- At most one item leaves in `removeItem`. -/
theorem leaves_removeItem (hi : i.ref ∈ t.allItems.map (·.ref) → i ∈ t.allItems)
    (count : UInt32) :
    Leaves types t (t.removeItem types i count) (t.removed types i count) := by
  unfold Tile.removeItem removed
  dsimp only
  by_cases hindex : t.getThingIndex types (.item i) = -1
  · rw [if_pos hindex, if_pos hindex]
    exact .refl
  rw [if_neg hindex, if_neg hindex]
  replace hi := hi (h.ref_mem_of_getThingIndex hindex)
  by_cases hground : t.ground.map (·.ref) = some i.ref
  · obtain ⟨g, hg, href⟩ := Option.map_eq_some_iff.1 hground
    have hmem : g ∈ t.allItems := by simp [allItems, hg]
    obtain rfl := h.eq_of_ref hi hmem href
    simp only [hground, decide_true, Bool.true_or, if_true]
    exact leaves_of_filter hmem (h.allItems_removeGround hg) rfl
  obtain ⟨j, hj, href⟩ := exists_of_getThingIndex hindex hground
  have hmem : j ∈ t.allItems := by
    rw [h.mem_allItems]
    split at hj
    · exact .inr (.inr hj)
    · exact .inr (.inl hj)
  obtain rfl := h.eq_of_ref hi hmem href
  simp only [hground, decide_false, Bool.false_or, if_false]
  by_cases htop : (j.item.getType types).alwaysOnTop = true
  · rw [Item.isAlwaysOnTop, if_pos htop] at hj
    simp only [if_pos htop]
    exact leaves_of_filter hmem (h.allItems_eraseTop hj) rfl
  rw [Item.isAlwaysOnTop, if_neg htop] at hj
  simp only [if_neg htop]
  split
  · rw [← modifyItem_of_ground hground]
    refine ⟨by simp, fun p hp => ?_, rfl⟩
    rw [hasBut_none, Tile.has, Tile.has, allItems_modifyItem, List.any_map]
    congr 1
    funext k
    rw [Function.comp_apply]
    split
    · exact hp _ _
    · rfl
  · exact leaves_of_filter hmem (h.allItems_eraseDown hj) rfl

theorem exchange_addGround (hnew : i.ref ∉ t.allItems.map (·.ref)) :
    Exchange types t (t.addGround types i) t.ground (some i) := by
  unfold Tile.addGround
  cases hground : t.ground with
  | none =>
    refine Leaves.refl.exchange ?_ rfl
    rw [allItems, allItems, hground]
    exact .refl _
  | some old =>
    have hold : old ∈ t.allItems := by simp [allItems, hground]
    have hitems := h.allItems_removeGround hground
    refine exchange_of_replace hold hnew ?_ rfl
    rw [← hitems]
    exact .refl _

theorem allItems_insertTop (p : TileItem → Bool) (i : TileItem) :
    ({ t with items := t.items.insertTop p i } : Tile).allItems.Perm (i :: t.allItems) := by
  rw [h.allItems_eq, allItems, (h.splits.insertTop p i).items, ← List.append_assoc]
  exact ((TileItemVector.insertBefore_perm p i _).append_left _).trans List.perm_middle

omit h in
theorem allItems_insertDown (i : TileItem) :
    ({ t with items := t.items.insertDown i } : Tile).allItems.Perm (i :: t.allItems) :=
  List.perm_middle

theorem leaves_removeSplash : Leaves types t (t.removeSplash types)
    ((t.items.topItems.find? fun j => (j.item.getType types).isSplash).bind fun j =>
      t.removed types j 1) := by
  unfold Tile.removeSplash
  cases hfind : t.items.topItems.find? fun j => (j.item.getType types).isSplash with
  | none => exact .refl
  | some old =>
    refine h.leaves_removeItem (fun _ => ?_) 1
    exact h.mem_allItems.2 (.inr (.inr (List.mem_of_find?_eq_some hfind)))

theorem exchange_addTop (htop : (i.item.getType types).alwaysOnTop = true) :
    Exchange types t (t.addTop types i) (t.drivenOut types i) (some i) := by
  unfold Tile.addTop drivenOut
  simp only [if_pos htop]
  split
  · exact h.leaves_removeSplash.exchange (h.removeSplash.allItems_insertTop _ i) rfl
  · exact Leaves.refl.exchange (h.allItems_insertTop _ i) rfl

theorem exchange_addDown (htop : ¬(i.item.getType types).alwaysOnTop = true) :
    Exchange types t (t.addDown types i) (t.drivenOut types i)
      (if t.keptOff types i then none else some i) := by
  have hinsert : ∀ {t₁ taken}, Leaves types t t₁ taken → Exchange types t
      ({ t₁ with items := t₁.items.insertDown i }.setFlagsOf types i) taken (some i) :=
    fun hleaves => hleaves.exchange (allItems_insertDown i) rfl
  unfold Tile.addDown drivenOut keptOff
  simp only [Bool.eq_false_iff.2 htop, Bool.not_false, Bool.true_and, Bool.false_eq_true, if_false]
  by_cases hfield : (i.item.getType types).isMagicField = true
  · simp only [hfield, Bool.true_and, if_true]
    cases hfind : t.items.downItems.find? fun j => j.item.cls == .magicField with
    | none => exact hinsert .refl
    | some old =>
      have hold := h.mem_allItems.2 (.inr (.inl (List.mem_of_find?_eq_some hfind)))
      dsimp only
      by_cases hrep : (old.item.getType types).replaceable = true
      · simp only [hrep, Bool.not_true, Bool.false_eq_true, if_true, if_false]
        exact hinsert (h.leaves_removeItem (fun _ => hold) 1)
      · simp only [hrep, Bool.not_false, Bool.false_eq_true, if_true, if_false]
        exact .refl
  · simp only [Bool.eq_false_iff.2 hfield, Bool.false_and, Bool.false_eq_true, if_false]
    exact hinsert .refl

theorem exchange_addThing {thing : Thing}
    (hnew : thing.address ∉ t.things.map Thing.address) :
    Exchange types t (t.addThing types thing) (t.taken types (.addThing thing))
      (t.given types (.addThing thing)) := by
  rcases thing with id | i
  · exact exchange_creatures _
  have href : i.ref ∉ t.allItems.map (·.ref) := fun hmem => hnew (inr_mem_addresses.2 hmem)
  unfold Tile.addThing taken given
  dsimp only
  split
  · exact .refl
  split
  · exact h.exchange_addGround href
  split
  · next htop =>
    have hkept : t.keptOff types i = false := by simp [keptOff, htop]
    rw [if_neg (by simp [hkept])]
    exact h.exchange_addTop htop
  · next htop => exact h.exchange_addDown htop

theorem exchange_internalAddThing (thing : Thing) :
    Exchange types t (t.internalAddThing types thing) (t.taken types (.internalAddThing thing))
      (t.given types (.internalAddThing thing)) := by
  rcases thing with id | i
  · exact exchange_creatures _
  unfold Tile.internalAddThing taken given
  dsimp only
  split
  · cases hground : t.ground with
    | none =>
      refine Leaves.refl.exchange ?_ rfl
      rw [allItems, allItems, hground]
      exact .refl _
    | some g => exact .refl
  split
  · exact .refl
  split
  · exact Leaves.refl.exchange (h.allItems_insertTop _ i) rfl
  · exact Leaves.refl.exchange (allItems_insertDown i) rfl

theorem exchange_removeThing {thing : Thing} {count : UInt32}
    (hthing : thing.address ∈ t.things.map Thing.address → thing ∈ t.things) :
    Exchange types t (t.removeThing types thing count) (t.taken types (.removeThing thing count))
      (t.given types (.removeThing thing count)) := by
  rcases thing with id | i
  · exact exchange_creatures _
  refine (h.leaves_removeItem (fun hmem => ?_) count).exchange_none
  exact mem_things_item.1 (hthing (inr_mem_addresses.2 hmem))

/-- A change in place changes the tests of one item. -/
theorem has_modifyItem (hi : i ∈ t.allItems) (f : Item → Item) (p : Item → Bool) :
    (t.modifyItem i.ref f).has p = (p (f i.item) || t.hasBut (some i) p) := by
  rw [Bool.eq_iff_iff]
  simp only [Tile.has, hasBut, allItems_modifyItem, List.any_map, Function.comp_apply,
    Option.all_some, Bool.or_eq_true, List.any_eq_true, Bool.and_eq_true, bne_iff_ne]
  constructor
  · rintro ⟨j, hj, hp⟩
    by_cases href : i.ref = j.ref
    · obtain rfl := h.eq_of_ref hj hi href
      rw [if_pos (beq_self_eq_true _)] at hp
      exact .inl hp
    · rw [if_neg (by simpa using Ne.symm href)] at hp
      exact .inr ⟨j, hj, href, hp⟩
  · rintro (hp | ⟨j, hj, href, hp⟩)
    · exact ⟨i, hi, by rwa [if_pos (beq_self_eq_true _)]⟩
    · exact ⟨j, hj, by rwa [if_neg (by simpa using Ne.symm href)]⟩

theorem exchange_updateThing {thing : Thing} {itemId : UInt16} {count : UInt32}
    (hthing : thing.address ∈ t.things.map Thing.address → thing ∈ t.things) :
    Exchange types t (t.updateThing types thing itemId count)
      (t.taken types (.updateThing thing itemId count))
      (t.given types (.updateThing thing itemId count)) := by
  rcases thing with id | i
  · exact .refl
  unfold Tile.updateThing taken given
  dsimp only
  by_cases hindex : t.getThingIndex types (.item i) = -1
  · simp only [if_pos hindex]
    exact .refl
  simp only [if_neg hindex]
  have hi : i ∈ t.allItems :=
    mem_things_item.1 (hthing (inr_mem_addresses.2 (h.ref_mem_of_getThingIndex hindex)))
  have hothers : t.hasProperty types i.ref =
      fun prop => t.hasBut (some i) (·.hasProperty types prop) := by
    funext prop
    simp only [hasProperty, hasBut, Option.all_some, bne_comm]
  constructor
  · exact fun j hj => Option.some.inj hj ▸ hi
  · intro p _
    exact h.has_modifyItem hi (updated types itemId count) p
  · refine ⟨_, fun prop => id, fun prop => .inr, ?_⟩
    rw [← hothers]
    rfl

theorem exchange_replaceItem {pos : ℕ} (hnew : i.ref ∉ t.allItems.map (·.ref)) :
    Exchange types t (t.replaceItem types pos i) ((t.thingBehind pos).bind Thing.getItem)
      (((t.thingBehind pos).bind Thing.getItem).map fun _ => i) := by
  rw [getItem_thingBehind]
  unfold Tile.replaceItem
  cases t.replacePosition pos with
  | none => exact .refl
  | some p =>
    dsimp only [Option.bind_some]
    cases hold : t.items.items[p]? with
    | none => exact .refl
    | some old =>
      obtain ⟨hlt, hget⟩ := List.getElem?_eq_some_iff.1 hold
      have hmem : old ∈ t.items.items := List.mem_of_getElem? hold
      refine exchange_of_replace (List.mem_append_right _ hmem) hnew ?_ rfl
      have hperm : t.allItems.Perm (old :: (t.ground.toList ++ t.items.items.eraseIdx p)) := by
        rw [allItems, ← hget]
        exact ((List.getElem_cons_eraseIdx_perm hlt).symm.append_left _).trans List.perm_middle
      have hrefs := (hperm.map (·.ref)).nodup_iff.1 h.refs
      have hrest : (t.allItems.filter (·.ref != old.ref)).Perm
          (t.ground.toList ++ t.items.items.eraseIdx p) := by
        refine (hperm.filter _).trans ?_
        rw [List.filter_cons_of_neg (by simp), List.filter_eq_self.2]
        intro j hj
        have hne : j.ref ≠ old.ref := by
          intro heq
          exact (List.nodup_cons.1 hrefs).1 (List.mem_map.2 ⟨j, hj, heq⟩)
        simpa using hne
      refine List.Perm.trans ?_ (hrest.symm.cons i)
      exact ((List.set_perm_cons_eraseIdx hlt i).append_left _).trans List.perm_middle

theorem exchange_replaceThing {index : ℕ} {thing : Thing}
    (hnew : thing.address ∉ t.things.map Thing.address) :
    Exchange types t (t.replaceThing types index thing)
      (t.taken types (.replaceThing index thing)) (t.given types (.replaceThing index thing)) := by
  rcases thing with id | i
  · exact .refl
  have href : i.ref ∉ t.allItems.map (·.ref) := fun hmem => hnew (inr_mem_addresses.2 hmem)
  unfold Tile.replaceThing taken given replaced getThing
  dsimp only
  cases hground : t.ground with
  | none => exact h.exchange_replaceItem href
  | some old =>
    dsimp only
    split
    · have hold : old ∈ t.allItems := by simp [allItems, hground]
      refine exchange_of_replace hold href ?_ rfl
      rw [← h.allItems_removeGround hground]
      exact .refl _
    · exact h.exchange_replaceItem href

/-- Every operation exchanges what goes for what comes. -/
theorem exchange {op : Op} (hadm : t.Admissible op) :
    Exchange types t (t.apply types op) (t.taken types op) (t.given types op) := by
  cases op with
  | addThing thing => exact h.exchange_addThing hadm
  | internalAddThing thing => exact h.exchange_internalAddThing thing
  | removeThing thing count => exact h.exchange_removeThing hadm
  | updateThing thing itemId count => exact h.exchange_updateThing hadm
  | replaceThing index thing => exact h.exchange_replaceThing hadm.2

end Indexed

end Tile

end OTServBR
