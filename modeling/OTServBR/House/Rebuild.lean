import Mathlib
import OTServBR.House.Depot

/-! # Furniture on a tile that becomes something else

In each of its ways an item that is transformed makes room for the new one and
leaves the others of the tile in order, behind its position in the vector even
at their places. The marks of teleports and trash holders stay.
-/

namespace OTServBR

namespace Item

variable {types : Items} {i : Item} {t u : ItemAttrType}

theorem hasAttribute_setIntAttr_of_ne (hne : t ≠ u) (v : Int32) :
    (i.setIntAttr t v).hasAttribute u = i.hasAttribute u := by
  have hget : i.getAttributes.hasAttribute u = i.hasAttribute u := by
    unfold getAttributes hasAttribute
    cases i.attributes with
    | none => simp [ItemAttributes.hasAttribute]
    | some a => rfl
  rw [← hget, hasAttribute, setIntAttr, ItemAttributes.setIntAttr]
  dsimp only
  split
  · rfl
  · exact ItemAttributes.hasAttribute_modifyAttr_of_ne (ItemAttrType.mask_and_mask hne)

theorem hasAttribute_removeAttribute_of_ne (hne : t ≠ u) :
    (i.removeAttribute t).hasAttribute u = i.hasAttribute u := by
  unfold removeAttribute hasAttribute
  cases i.attributes with
  | none => rfl
  | some a =>
    dsimp only [Option.map_some]
    unfold ItemAttributes.removeAttribute
    split
    · rfl
    · rw [ItemAttributes.hasAttribute, ItemAttributes.hasAttribute,
        ItemAttributes.mask_and_not (ItemAttrType.mask_and_mask hne)]

@[simp] theorem uniqueId_setID (newid : UInt16) :
    (i.setID types newid).hasAttribute .uniqueId = i.hasAttribute .uniqueId := by
  unfold setID setDecaying setDuration
  dsimp only
  split_ifs
  all_goals try simp only [hasAttribute_setIntAttr_of_ne, hasAttribute_removeAttribute_of_ne, ne_eq,
    reduceCtorEq, not_false_eq_true]
  all_goals rfl

@[simp] theorem uniqueId_setSubType (n : UInt16) :
    (i.setSubType types n).hasAttribute .uniqueId = i.hasAttribute .uniqueId := by
  unfold setSubType setFluidType setCharges
  dsimp only
  split_ifs
  all_goals try simp only [hasAttribute_setIntAttr_of_ne, ne_eq, reduceCtorEq, not_false_eq_true]
  all_goals rfl

@[simp] theorem uniqueId_setDefaultSubtype :
    (i.setDefaultSubtype types).hasAttribute .uniqueId = i.hasAttribute .uniqueId := by
  unfold setDefaultSubtype setCharges
  dsimp only
  split_ifs
  all_goals try simp only [hasAttribute_setIntAttr_of_ne, ne_eq, reduceCtorEq, not_false_eq_true]
  all_goals rfl

@[simp] theorem id_setDefaultSubtype : (i.setDefaultSubtype types).id = i.id := by
  unfold setDefaultSubtype setCharges
  dsimp only
  split_ifs <;> rfl

@[simp] theorem cls_setDefaultSubtype : (i.setDefaultSubtype types).cls = i.cls := by
  unfold setDefaultSubtype setCharges
  dsimp only
  split_ifs <;> rfl

@[simp] theorem uniqueId_setDefaultDuration :
    (i.setDefaultDuration types).hasAttribute .uniqueId = i.hasAttribute .uniqueId := by
  unfold setDefaultDuration setDuration
  dsimp only
  split_ifs <;>
    simp only [hasAttribute_setIntAttr_of_ne, ne_eq, reduceCtorEq, not_false_eq_true]

end Item

namespace Tile

variable {types : Items} {t t' : Tile} {k : ℕ} {item new : TileItem}

/-- The flags that say what a tile does with an item that comes to it. -/
def SameMarks (t t' : Tile) : Prop :=
  ∀ f ∈ [FeatureFlag.teleport, FeatureFlag.trashHolder],
    hasFlag f.mask t'.flags = hasFlag f.mask t.flags

/-- The classes of furniture. -/
def IsFurniture (cls : ItemClass) : Prop := cls = .item ∨ cls = .container ∨ cls = .mailbox

theorem IsFurniture.test_eq (h : IsFurniture item.item.cls) :
    ∀ f ∈ [FeatureFlag.teleport, FeatureFlag.trashHolder], f.test types item.item = false := by
  have hcls : item.item.cls ≠ .teleport ∧ item.item.cls ≠ .trashHolder := by
    rcases h with h | h | h <;> rw [h] <;> decide
  intro f hf
  rcases List.mem_pair.1 hf with rfl | rfl
  · simpa [FeatureFlag.test] using hcls.1
  · simpa [FeatureFlag.test] using hcls.2

theorem SameMarks.trans {t'' : Tile} (h : SameMarks t t') (h' : SameMarks t' t'') :
    SameMarks t t'' := fun f hf => (h' f hf).trans (h f hf)

theorem sameMarks_setFlagsOf (h : IsFurniture item.item.cls) :
    SameMarks t (t.setFlagsOf types item) := by
  intro f hf
  rw [setFlagsOf, hasFlag_setTileFlags_feature, h.test_eq f hf, Bool.or_false]

theorem sameMarks_resetFlagsOf (h : IsFurniture item.item.cls) :
    SameMarks t (t.resetFlagsOf types item) := by
  intro f hf
  rw [resetFlagsOf, hasFlag_resetTileFlags_feature, h.test_eq f hf, Bool.not_false, Bool.and_true]

/-- A new item has taken the place of the one at a position, or stands in front of the items. -/
structure Placed (types : Items) (t t' : Tile) (k : ℕ) (new : TileItem) : Prop where
  indexed : Indexed types True t'
  ground : t'.ground = t.ground
  split : ∃ pre, t'.items.items = pre ++ t.items.items.drop (k + 1) ∧
    pre.Perm (new :: t.items.items.take k)
  marks : SameMarks t t'

theorem Placed.items_perm (h : Placed types t t' k new) :
    t'.items.items.Perm (new :: t.items.items.eraseIdx k) := by
  obtain ⟨pre, heq, hperm⟩ := h.split
  rw [heq, List.eraseIdx_eq_take_drop_succ]
  exact hperm.append_right _

theorem Placed.allItems_perm (h : Placed types t t' k new) :
    t'.allItems.Perm (new :: (t.ground.toList ++ t.items.items.eraseIdx k)) := by
  rw [allItems, h.ground]
  exact (h.items_perm.append_left _).trans List.perm_middle

section Position

variable (hk : t.items.items[k]? = some item)

include hk

theorem items_eq_of_getElem? :
    t.items.items = t.items.items.take k ++ item :: t.items.items.drop (k + 1) := by
  obtain ⟨hlt, hget⟩ := List.getElem?_eq_some_iff.1 hk
  rw [← hget, List.cons_getElem_drop_succ, List.take_append_drop]

theorem items_perm_of_getElem? : t.items.items.Perm (item :: t.items.items.eraseIdx k) := by
  conv_lhs => rw [items_eq_of_getElem? hk]
  rw [List.eraseIdx_eq_take_drop_succ]
  exact List.perm_middle

theorem allItems_perm_of_getElem? :
    t.allItems.Perm (item :: (t.ground.toList ++ t.items.items.eraseIdx k)) :=
  ((items_perm_of_getElem? hk).append_left _).trans List.perm_middle

theorem mem_of_getElem? : item ∈ t.allItems :=
  List.mem_append_right _ (List.mem_of_getElem? hk)

end Position

theorem Placed.any_ref (h : Placed types t t' k new) :
    t'.allItems.any (·.ref == new.ref) = true :=
  List.any_eq_true.2 ⟨new, h.allItems_perm.mem_iff.2 List.mem_cons_self, beq_self_eq_true new.ref⟩

/-- A change through a pointer leaves the other items as they are. -/
theorem map_modify_of_ne {l : List TileItem} {r : ℕ} {f : Item → Item} (h : ∀ j ∈ l, j.ref ≠ r) :
    (l.map fun j => if j.ref == r then { j with item := f j.item } else j) = l := by
  refine (List.map_congr_left fun j hj => ?_).trans l.map_id
  rw [if_neg (by simpa using h j hj), id]

/-- The new item may be changed as long as it stays on its side. -/
theorem Placed.modifyItem (h : Placed types t t' k new) {f : Item → Item}
    (hf : (f new.item).isAlwaysOnTop types = new.item.isAlwaysOnTop types) :
    Placed types t (t'.modifyItem new.ref f) k { new with item := f new.item } := by
  have hnew : new ∈ t'.allItems := h.allItems_perm.mem_iff.2 List.mem_cons_self
  have hother : ∀ j ∈ t.ground.toList ++ t.items.items.eraseIdx k, j.ref ≠ new.ref := by
    have hrefs := (h.allItems_perm.map TileItem.ref).nodup_iff.1 h.indexed.refs
    exact fun j hj href => (List.nodup_cons.1 hrefs).1 (href ▸ List.mem_map_of_mem hj)
  obtain ⟨pre, heq, hperm⟩ := h.split
  have hdrop := map_modify_of_ne (l := t.items.items.drop (k + 1)) (r := new.ref) (f := f)
    fun j hj => by
      refine hother j (List.mem_append_right _ ?_)
      rw [List.eraseIdx_eq_take_drop_succ]
      exact List.mem_append_right _ hj
  have htake := map_modify_of_ne (l := t.items.items.take k) (r := new.ref) (f := f)
    fun j hj => by
      refine hother j (List.mem_append_right _ ?_)
      rw [List.eraseIdx_eq_take_drop_succ]
      exact List.mem_append_left _ hj
  have hgroundne : t'.ground.map (·.ref) ≠ some new.ref := by
    intro hg
    obtain ⟨g, hg, href⟩ := Option.map_eq_some_iff.1 hg
    exact hother g (List.mem_append_left _ (by simp [← h.ground, hg])) href
  refine ⟨h.indexed.modifyItem new.ref f fun _ j hj href => ?_, ?_,
    ⟨pre.map fun j => if j.ref == new.ref then { j with item := f j.item } else j, ?_, ?_⟩, h.marks⟩
  · rw [h.indexed.eq_of_ref hnew hj href, hf]
  · rw [modifyItem_of_ground hgroundne]
    exact h.ground
  · rw [← hdrop, ← List.map_append, ← heq]
    rfl
  · refine (hperm.map _).trans ?_
    rw [List.map_cons, htake, if_pos (beq_self_eq_true _)]

namespace Indexed

variable (h : Indexed types True t) (hk : t.items.items[k]? = some item)

include h hk

/-- The other items of the tile have other addresses. -/
theorem ref_ne {j : TileItem} (hj : j ∈ t.ground.toList ∨ j ∈ t.items.items.take k ∨
    j ∈ t.items.items.drop (k + 1)) : j.ref ≠ item.ref := by
  have hrefs := h.refs
  rw [allItems, items_eq_of_getElem? hk, ← List.append_assoc,
    (List.perm_middle.map _).nodup_iff, List.map_cons, List.nodup_cons] at hrefs
  refine fun href => hrefs.1 (List.mem_map.2 ⟨j, ?_, href⟩)
  simpa [or_assoc] using hj

theorem getThingIndex_eq : ∃ n : ℕ, t.getThingIndex types (.item item) = n ∧
    t.getThing n = some (.item item) :=
  h.getThing_getThingIndex (mem_things_item.2 (mem_of_getElem? hk))

theorem ground_ne : t.ground.map (·.ref) ≠ some item.ref := by
  intro hg
  obtain ⟨g, hg, href⟩ := Option.map_eq_some_iff.1 hg
  exact h.ref_ne hk (.inl (by simp [hg])) href

/-- An index of an item of the vector is one of its position. -/
theorem replaceItem_eq {pos : ℕ} (hpos : t.thingBehind pos = some (.item item)) :
    t.replaceItem types pos new =
      ({ t with items := { t.items with items := t.items.items.set k new } }.resetFlagsOf types
        item).setFlagsOf types new := by
  have hget := t.getItem_thingBehind pos
  rw [hpos] at hget
  obtain ⟨p, hp, hold⟩ := Option.bind_eq_some_iff.1 hget.symm
  obtain rfl : p = k := by
    have hnodup : (t.items.items.map (·.ref)).Nodup :=
      h.refs.sublist ((List.sublist_append_right _ _).map _)
    have hlt : p < (t.items.items.map (·.ref)).length := by
      rw [List.length_map]
      exact (List.getElem?_eq_some_iff.1 hold).1
    refine (List.getElem?_inj hlt hnodup).1 ?_
    rw [List.getElem?_map, List.getElem?_map, hold, hk]
  simp only [Tile.replaceItem, hp, hold]

theorem replaceThing_eq : t.replaceThing types (t.getThingIndex types (.item item)).toNat
      (.item new) =
    ({ t with items := { t.items with items := t.items.items.set k new } }.resetFlagsOf types
      item).setFlagsOf types new := by
  obtain ⟨n, hindex, hget⟩ := h.getThingIndex_eq hk
  rw [hindex, Int.toNat_natCast]
  unfold Tile.replaceThing
  unfold getThing at hget
  cases hground : t.ground with
  | none =>
    rw [hground] at hget
    dsimp only
    rw [h.replaceItem_eq hk hget, hground]
  | some g =>
    rw [hground] at hget
    dsimp only at hget ⊢
    split at hget
    · have href : g = item := Thing.item.inj (Option.some.inj hget)
      exact absurd (congrArg some (congrArg _ href)) (hground ▸ h.ground_ne hk)
    · next hn => rw [if_neg hn, h.replaceItem_eq hk hget, hground]

/-- A change through the pointer of an item is one at its position. -/
theorem items_modifyItem (f : Item → Item) : (t.modifyItem item.ref f).items.items =
    t.items.items.set k { item with item := f item.item } := by
  have hlt := (List.getElem?_eq_some_iff.1 hk).1
  rw [List.set_eq_take_append_cons_drop, if_pos hlt, Tile.modifyItem, TileItemVector.modify]
  conv_lhs => rw [items_eq_of_getElem? hk]
  rw [List.map_append, List.map_cons, if_pos (by simp),
    map_modify_of_ne fun j hj => h.ref_ne hk (.inr (.inl hj)),
    map_modify_of_ne fun j hj => h.ref_ne hk (.inr (.inr hj))]

theorem ground_modifyItem (f : Item → Item) : (t.modifyItem item.ref f).ground = t.ground := by
  rw [modifyItem_of_ground (h.ground_ne hk)]

omit h in
/-- An item that changes in place. -/
theorem placed_of_set (h' : Indexed types True t') (hground : t'.ground = t.ground)
    (hitems : t'.items.items = t.items.items.set k new) (hmarks : SameMarks t t') :
    Placed types t t' k new := by
  have hlt := (List.getElem?_eq_some_iff.1 hk).1
  refine ⟨h', hground, ⟨t.items.items.take k ++ [new], ?_, List.perm_append_singleton _ _⟩, hmarks⟩
  rw [hitems, List.set_eq_take_append_cons_drop, if_pos hlt, List.append_assoc,
    List.singleton_append]

/-- A new object in the place of an item. -/
theorem placed_replaceThing (hnew : new.ref ∉ t.allItems.map (·.ref))
    (htop : new.item.isAlwaysOnTop types = item.item.isAlwaysOnTop types)
    (hitem : IsFurniture item.item.cls) (hcls : IsFurniture new.item.cls) :
    Placed types t (t.replaceThing types (t.getThingIndex types (.item item)).toNat (.item new))
      k new := by
  rw [h.replaceThing_eq hk]
  refine placed_of_set hk ?_ rfl rfl ?_
  · exact ((h.setItem hk hnew fun _ => htop).resetFlagsOf item).setFlagsOf new
  · exact fun f hf => (sameMarks_setFlagsOf hcls f hf).trans (sameMarks_resetFlagsOf hitem f hf)

theorem getThingIndex_ne : t.getThingIndex types (.item item) ≠ -1 := by
  obtain ⟨n, hindex, -⟩ := h.getThingIndex_eq hk
  omega

theorem removeThing_top (htop : item.item.isAlwaysOnTop types = true) (count : UInt32) :
    t.removeThing types (.item item) count =
      { t with items := t.items.eraseTop item.ref }.resetFlagsOf types item := by
  have hindex := h.getThingIndex_ne hk
  have hground := h.ground_ne hk
  simp only [Tile.removeThing, Tile.removeItem, if_neg hindex, if_neg hground]
  exact if_pos htop

theorem items_eraseTop (htop : item.item.isAlwaysOnTop types = true) :
    (t.items.eraseTop item.ref).items =
      t.items.items.take k ++ t.items.items.drop (k + 1) := by
  have hdown : ∀ j ∈ t.items.downItems, ¬(j.ref == item.ref) = true := by
    intro j hj href
    have hmem := h.mem_allItems.2 (.inr (.inl hj))
    obtain rfl := h.eq_of_ref (mem_of_getElem? hk) hmem (by simpa using href)
    rw [h.down trivial j hj] at htop
    cases htop
  have htake : ∀ j ∈ t.items.items.take k, ¬(j.ref == item.ref) = true :=
    fun j hj => by simpa using h.ref_ne hk (.inr (.inl hj))
  rw [(h.splits.eraseTop item.ref).items, ← List.eraseP_append_right _ hdown, ← h.splits.items]
  conv_lhs => rw [items_eq_of_getElem? hk]
  rw [List.eraseP_append_right _ htake, List.eraseP_cons_of_pos (by simp)]

/-- An item that goes as a whole. -/
theorem removeThing_whole : ∃ v : TileItemVector,
    t.removeThing types (.item item) (UInt32.ofNat item.item.getItemCount) =
      { t with items := v }.resetFlagsOf types item ∧
    v.items = t.items.items.filter (·.ref != item.ref) := by
  have hindex := h.getThingIndex_ne hk
  have hground := h.ground_ne hk
  have hstay : t.ground.toList.filter (·.ref != item.ref) = t.ground.toList :=
    List.filter_eq_self.2 fun j hj => by simpa using h.ref_ne hk (.inl hj)
  have hvector : ∀ {v : TileItemVector}, ({ t with items := v } : Tile).allItems =
      t.allItems.filter (·.ref != item.ref) →
      v.items = t.items.items.filter (·.ref != item.ref) := by
    intro v hv
    rw [allItems, allItems, List.filter_append, hstay] at hv
    exact List.append_cancel_left hv
  have hside : item ∈ t.items.downItems ∨ item ∈ t.items.topItems :=
    (h.mem_allItems.1 (mem_of_getElem? hk)).resolve_left fun hg => h.ref_ne hk (.inl hg) rfl
  simp only [Tile.removeThing, Tile.removeItem, if_neg hindex, if_neg hground]
  by_cases htop : item.item.isAlwaysOnTop types = true
  · have hmem : item ∈ t.items.topItems := hside.resolve_left fun hd => by
      rw [h.down trivial item hd] at htop
      cases htop
    have htop' : (item.item.getType types).alwaysOnTop = true := htop
    rw [if_pos htop']
    exact ⟨_, rfl, hvector (h.allItems_eraseTop hmem)⟩
  · have hmem : item ∈ t.items.downItems := hside.resolve_right fun ht =>
      htop (h.top trivial item ht)
    have hcount : (UInt32.ofNat item.item.getItemCount).toNat = item.item.getItemCount := by
      have hlt := item.item.count.toNat_lt
      exact UInt32.toNat_ofNat_of_lt' (hlt.trans (by decide))
    have hwhole : ¬((item.item.getType types).stackable &&
        (UInt32.ofNat item.item.getItemCount).toNat != item.item.getItemCount) = true := by
      simp [hcount]
    have hnot : ¬(item.item.getType types).alwaysOnTop = true := htop
    rw [if_neg hnot, if_neg hwhole]
    exact ⟨_, rfl, hvector (h.allItems_eraseDown hmem)⟩

theorem allItems_removeThing :
    (t.removeThing types (.item item) (UInt32.ofNat item.item.getItemCount)).allItems =
      t.allItems.filter (·.ref != item.ref) := by
  obtain ⟨v, heq, hv⟩ := h.removeThing_whole hk
  have hstay : t.ground.toList.filter (·.ref != item.ref) = t.ground.toList :=
    List.filter_eq_self.2 fun j hj => by simpa using h.ref_ne hk (.inl hj)
  have hall : t.allItems.filter (·.ref != item.ref) =
      t.ground.toList ++ t.items.items.filter (·.ref != item.ref) := by
    rw [allItems, List.filter_append, hstay]
  rw [heq, hall]
  exact congrArg (t.ground.toList ++ ·) hv

/-- An item that has been on top comes to the front. -/
theorem placed_lower (hsize : t.items.size ≤ 0xFFFF) (href : new.ref = item.ref)
    (htop : item.item.isAlwaysOnTop types = true) (hdown : new.item.isAlwaysOnTop types = false)
    (hground : (new.item.getType types).isGroundTile = false)
    (hfield : (new.item.getType types).isMagicField = false)
    (hitem : IsFurniture item.item.cls) (hcls : IsFurniture new.item.cls) (count : UInt32) :
    Placed types t ((t.removeThing types (.item item) count).addThing types (.item new)) k new := by
  have hremove := h.removeThing_top hk htop count
  have hitems := h.items_eraseTop hk htop
  have hindexed := h.removeThing (.item item) count
  rw [hremove] at hindexed ⊢
  set t₁ := { t with items := t.items.eraseTop item.ref }.resetFlagsOf types item with ht₁
  have hlt := (List.getElem?_eq_some_iff.1 hk).1
  have hroom : ¬0xFFFF ≤ t₁.items.size := by
    have hlen : t₁.items.size = k + (t.items.items.length - (k + 1)) := by
      rw [TileItemVector.size, ht₁, Tile.resetFlagsOf, hitems, List.length_append, List.length_take,
        List.length_drop, min_eq_left hlt.le]
    rw [TileItemVector.size] at hsize
    omega
  have hadd : t₁.addThing types (.item new) =
      { t₁ with items := t₁.items.insertDown new }.setFlagsOf types new := by
    have hdown' : (new.item.getType types).alwaysOnTop = false := hdown
    simp only [Tile.addThing, if_neg hroom, hground, hdown', Bool.false_eq_true, if_false,
      Tile.addDown, hfield]
  have hnew : new.ref ∉ t₁.allItems.map (·.ref) := by
    rintro hmem
    obtain ⟨j, hj, hjref⟩ := List.mem_map.1 hmem
    refine h.ref_ne hk (j := j) ?_ (hjref.trans href)
    rw [ht₁, Tile.resetFlagsOf, allItems, hitems] at hj
    simpa using hj
  refine ⟨hindexed.addThing fun hmem => hnew (inr_mem_addresses.1 hmem), ?_, ?_, ?_⟩
  · rw [hadd]
    rfl
  · refine ⟨new :: t.items.items.take k, ?_, .refl _⟩
    rw [hadd, List.cons_append, ← hitems]
    rfl
  · rw [hadd]
    exact fun f hf => (sameMarks_setFlagsOf hcls f hf).trans (sameMarks_resetFlagsOf hitem f hf)

/-- An item that is changed, gets another id and is changed once more. -/
theorem placed_change {i j : Item} {itemId : UInt16} (count : UInt32) (hid : i.id = item.item.id)
    (htop : (types.getItemType itemId).alwaysOnTop = item.item.isAlwaysOnTop types)
    (hjtop : j.isAlwaysOnTop types = item.item.isAlwaysOnTop types)
    (hitem : IsFurniture item.item.cls) (hcls : i.cls = item.item.cls) :
    Placed types t (((t.modifyItem item.ref fun _ => i).updateThing types
      (.item { item with item := i }) itemId count).modifyItem item.ref fun _ => j) k
      { item with item := j } := by
  have hlt := (List.getElem?_eq_some_iff.1 hk).1
  have hitop : i.isAlwaysOnTop types = item.item.isAlwaysOnTop types := by
    rw [Item.isAlwaysOnTop, Item.isAlwaysOnTop, Item.getType, Item.getType, hid]
  have hsame : ∀ {u : Tile}, Indexed types True u → ∀ {x : TileItem}, u.items.items[k]? = some x →
      ∀ {a : Item}, a.isAlwaysOnTop types = x.item.isAlwaysOnTop types →
      Indexed types True (u.modifyItem x.ref fun _ => a) := by
    intro u hu x hx a ha
    refine hu.modifyItem x.ref _ fun _ y hy href => ?_
    rw [hu.eq_of_ref (mem_of_getElem? hx) hy href, ha]
  -- The three stages, each with what is at the position.
  have h₁ := hsame h hk hitop
  have hitems₁ := h.items_modifyItem hk fun _ => i
  set t₁ := t.modifyItem item.ref fun _ => i with ht₁
  have hk₁ : t₁.items.items[k]? = some { item with item := i } := by
    rw [hitems₁, List.getElem?_set_self hlt]
  have hupdate : t₁.updateThing types (.item { item with item := i }) itemId count =
      ((t₁.resetFlagsOf types { item with item := i }).modifyItem item.ref
        (updated types itemId count)).setFlagsOf types
        { item with item := updated types itemId count i } := if_neg (h₁.getThingIndex_ne hk₁)
  have h₂ : Indexed types True
      (t₁.updateThing types (.item { item with item := i }) itemId count) :=
    h₁.updateThing (fun _ => mem_things_item.2 (mem_of_getElem? hk₁)) fun _ x hx => by
      obtain rfl := Thing.item.inj hx
      rw [htop, hitop]
  have hitems₂ : (t₁.updateThing types (.item { item with item := i }) itemId count).items.items =
      t₁.items.items.set k { item with item := updated types itemId count i } := by
    rw [hupdate]
    exact (h₁.resetFlagsOf { item with item := i }).items_modifyItem hk₁ _
  have hground₂ : (t₁.updateThing types (.item { item with item := i }) itemId count).ground =
      t₁.ground := by
    rw [hupdate]
    exact (h₁.resetFlagsOf { item with item := i }).ground_modifyItem hk₁ _
  have hmarks₂ : SameMarks t
      (t₁.updateThing types (.item { item with item := i }) itemId count) := by
    have hi : IsFurniture (⟨item.ref, i⟩ : TileItem).item.cls := hcls ▸ hitem
    have hu : IsFurniture (⟨item.ref, updated types itemId count i⟩ : TileItem).item.cls := by
      rw [updated, Item.cls_setSubType, Item.cls_setID]
      exact hi
    rw [hupdate]
    exact fun f hf => (sameMarks_setFlagsOf hu f hf).trans
      (sameMarks_resetFlagsOf (t := t₁) hi f hf)
  set t₂ := t₁.updateThing types (.item { item with item := i }) itemId count
  have hk₂ : t₂.items.items[k]? = some { item with item := updated types itemId count i } := by
    rw [hitems₂, List.getElem?_set_self (by rwa [hitems₁, List.length_set])]
  have hjtop₂ : j.isAlwaysOnTop types = (updated types itemId count i).isAlwaysOnTop types := by
    rw [hjtop, isAlwaysOnTop_updated, htop]
  refine placed_of_set hk (hsame h₂ hk₂ hjtop₂) ?_ ?_ fun f hf => hmarks₂ f hf
  · rw [h₂.ground_modifyItem hk₂, hground₂, ht₁, h.ground_modifyItem hk]
  · rw [h₂.items_modifyItem hk₂, hitems₂, hitems₁, List.set_set, List.set_set]

end Indexed

end Tile

namespace Depot

open Tile

variable {c : Catalogue} {item new : TileItem} {newId : UInt16}

/-- Whether a trash holder can destroy what an item is turned into. It can destroy every new object,
but an object that stays only without a unique id and with a count. -/
def Catalogue.destroyable (c : Catalogue) (item : Item) (newId : UInt16) : Bool :=
  let curType := item.getType c.types
  let newType := c.types.getItemType newId
  if curType.alwaysOnTop != newType.alwaysOnTop then
    !item.hasAttribute .uniqueId && item.count != 0
  else if curType.type == newType.type then
    !item.hasAttribute .uniqueId && (item.getSubType c.types).toUInt8 != 0
  else true

theorem Plain.classOf_eq {it : ItemType} {id : UInt16} (h : Plain it id) :
    Item.classOf it = .item := by
  simp [Item.classOf, ItemType.isDepot, ItemType.isRewardChest, ItemType.isContainer,
    ItemType.isTeleport, ItemType.isMagicField, ItemType.isDoor, ItemType.isTrashHolder,
    ItemType.isMailbox, ItemType.isBed, h.type, h.group]

theorem kitIds_plain : ∀ id ∈ kitIds, id ≠ 0 ∧ Item.plainId id id = id := by
  have hall : kitIds.all (fun id => id != 0 && Item.plainId id id == id) = true := by
    decide +kernel
  intro id hid
  simpa using List.all_eq_true.1 hall id hid

theorem Catalogue.createItem_kit (c : Catalogue) (hid : newId ∈ kitIds) :
    Item.createItem c.types newId = some (({ cls := .item, id := newId } : Item).setDefaultDuration
      c.types) := by
  have hplain := c.plain newId hid
  have hzero : (newId == 0) = false := by simpa using (kitIds_plain newId hid).1
  unfold Item.createItem Item.construct
  simp [hplain.group, hplain.stackable, hplain.id, hplain.charges, hzero, hplain.classOf_eq,
    (kitIds_plain newId hid).2, ItemType.isFluidContainer, ItemType.isSplash]

/-- What `transformItem` makes of an item on a tile. -/
structure Remade (c : Catalogue) (t t' : Tile) (k : ℕ) (item : TileItem) (newId : UInt16) (next : ℕ)
    (new : TileItem) : Prop where
  placed : Placed c.types t t' k new
  id : new.item.id = newId
  cls : IsFurniture new.item.cls
  ref : new.ref = item.ref ∧ new.item.cls = item.item.cls ∨ new.ref = next
  destroyable : (!new.item.hasAttribute .uniqueId && new.item.count != 0) =
    c.destroyable item.item newId

variable {t : Tile} {k next : ℕ}

section Remade

variable (h : Indexed c.types True t) (hk : t.items.items[k]? = some item)
  (hitem : IsFurniture item.item.cls) (hid : newId ∈ kitIds)

include h hk hitem hid

/-- An item that leaves the top items. -/
theorem exists_remade_of_top (hsize : t.items.size ≤ 0xFFFF) (index : ℕ)
    (htop : ((item.item.getType c.types).alwaysOnTop !=
      (c.types.getItemType newId).alwaysOnTop) = true) :
    ∃ t' new, transformOnTile c t index item newId next = (t', some new) ∧
      Remade c t t' k item newId next new := by
  have hplain := c.plain newId hid
  have hontop : (item.item.getType c.types).alwaysOnTop = true := by
    simpa [hplain.alwaysOnTop] using htop
  have htype : (item.item.setID c.types newId).getType c.types = c.types.getItemType newId := by
    rw [Item.getType, Item.id_setID]
  have hcls : IsFurniture (item.item.setID c.types newId).cls := by
    rw [Item.cls_setID]
    exact hitem
  have hplaced : Placed c.types t ((t.removeThing c.types (.item item)
      (UInt32.ofNat item.item.getItemCount)).addThing c.types
        (.item { item with item := item.item.setID c.types newId })) k
      { item with item := item.item.setID c.types newId } := by
    refine h.placed_lower hk hsize (by rfl) hontop ?_ ?_ ?_ hitem hcls _
    · rw [Item.isAlwaysOnTop, htype, hplain.alwaysOnTop]
    · rw [htype, ItemType.isGroundTile, hplain.group]
      rfl
    · rw [htype, ItemType.isMagicField, hplain.type]
      rfl
  refine ⟨_, _, ?_, hplaced, Item.id_setID _, hcls, .inl ⟨rfl, Item.cls_setID _⟩, ?_⟩
  · unfold transformOnTile
    dsimp only
    rw [if_pos htop, if_pos hplaced.any_ref]
  · rw [Catalogue.destroyable, if_pos htop, Item.uniqueId_setID, Item.count_setID]

/-- An item that stays of its kind. -/
theorem exists_remade_of_type (hne : item.item.id ≠ newId) (index : ℕ)
    (htop : ¬((item.item.getType c.types).alwaysOnTop !=
      (c.types.getItemType newId).alwaysOnTop) = true)
    (htype : ((item.item.getType c.types).type == (c.types.getItemType newId).type) = true) :
    ∃ t' new, transformOnTile c t index item newId next = (t', some new) ∧
      Remade c t t' k item newId next new := by
  have hplain := c.plain newId hid
  have hcur : ((item.item.getType c.types).id != (c.types.getItemType newId).id) = true := by
    rw [hplain.id, Item.getType, bne_iff_ne]
    rcases c.id_eq item.item.id with heq | heq <;> rw [heq]
    · exact hne
    · exact (kitIds_plain newId hid).1.symm
  have hontop : (c.types.getItemType newId).alwaysOnTop = item.item.isAlwaysOnTop c.types := by
    simpa [Item.isAlwaysOnTop] using Eq.symm (not_not.1 fun hne' => htop (bne_iff_ne.2 hne'))
  -- The object before it gets the id, and with the id and its duration.
  set i := if ((item.item.getType c.types).id != (c.types.getItemType newId).id &&
      (c.types.getItemType newId).group != (item.item.getType c.types).group) = true
    then item.item.setDefaultSubtype c.types else item.item with hi
  set u := updated c.types newId (item.item.getSubType c.types).toUInt32 i with hu
  set j := if (item.item.getDuration != 0) = true then u.setDuration item.item.getDuration.toInt32
    else u with hj
  have hiid : i.id = item.item.id := by
    rw [hi]
    split_ifs
    · exact Item.id_setDefaultSubtype
    · rfl
  have hicls : i.cls = item.item.cls := by
    rw [hi]
    split_ifs
    · exact Item.cls_setDefaultSubtype
    · rfl
  have hiunique : i.hasAttribute .uniqueId = item.item.hasAttribute .uniqueId := by
    rw [hi]
    split_ifs
    · exact Item.uniqueId_setDefaultSubtype
    · rfl
  have huid : u.id = newId := by rw [hu, updated, Item.id_setSubType, Item.id_setID]
  have hjid : j.id = newId := by
    rw [hj]
    split_ifs <;> exact huid
  have hjcls : j.cls = item.item.cls := by
    have hucls : u.cls = item.item.cls := by
      rw [hu, updated, Item.cls_setSubType, Item.cls_setID, hicls]
    rw [hj]
    split_ifs <;> exact hucls
  have hjunique : j.hasAttribute .uniqueId = item.item.hasAttribute .uniqueId := by
    have huunique : u.hasAttribute .uniqueId = item.item.hasAttribute .uniqueId := by
      rw [hu, updated, Item.uniqueId_setSubType, Item.uniqueId_setID, hiunique]
    rw [hj]
    split_ifs
    · rw [Item.setDuration, Item.hasAttribute_setIntAttr_of_ne (by decide), huunique]
    · exact huunique
  have hjcount : j.count = (item.item.getSubType c.types).toUInt8 := by
    have hucount : u.count = (item.item.getSubType c.types).toUInt8 := by
      have htype' : (i.setID c.types newId).getType c.types = c.types.getItemType newId := by
        rw [Item.getType, Item.id_setID]
      rw [hu, updated, Item.setSubType]
      simp [htype', ItemType.isFluidContainer, ItemType.isSplash, hplain.group, hplain.stackable,
        hplain.charges, Item.setItemCount]
    rw [hj]
    split_ifs <;> exact hucount
  have hjtop : j.isAlwaysOnTop c.types = item.item.isAlwaysOnTop c.types := by
    rw [← hontop, Item.isAlwaysOnTop, Item.getType, hjid]
  have hplaced := h.placed_change hk (item.item.getSubType c.types).toUInt32 hiid hontop hjtop hitem
    hicls
  refine ⟨_, _, ?_, hplaced, hjid, hjcls ▸ hitem, .inl ⟨rfl, hjcls⟩, ?_⟩
  · unfold transformOnTile
    dsimp only
    rw [if_neg htop, if_pos htype, if_pos hcur]
  · rw [Catalogue.destroyable, if_neg htop, if_pos htype, hjunique, hjcount]

/-- A new object in the place of an item. -/
theorem exists_remade_of_create (hnext : next ∉ t.allItems.map (·.ref))
    (htop : ¬((item.item.getType c.types).alwaysOnTop !=
      (c.types.getItemType newId).alwaysOnTop) = true)
    (htype : ¬((item.item.getType c.types).type == (c.types.getItemType newId).type) = true) :
    ∃ t' new, transformOnTile c t (t.getThingIndex c.types (.item item)).toNat item newId next =
        (t', some new) ∧ Remade c t t' k item newId next new := by
  have hplain := c.plain newId hid
  set i := ({ cls := .item, id := newId } : Item).setDefaultDuration c.types with hi
  have hcls : i.cls = .item := by
    rw [hi, Item.setDefaultDuration]
    split_ifs <;> rfl
  have hiid : i.id = newId := by
    rw [hi, Item.setDefaultDuration]
    split_ifs <;> rfl
  have hcount : i.count = 1 := by
    rw [hi, Item.setDefaultDuration]
    split_ifs <;> rfl
  have hplaced : Placed c.types t (t.replaceThing c.types
      (t.getThingIndex c.types (.item item)).toNat (.item ⟨next, i⟩)) k ⟨next, i⟩ := by
    refine h.placed_replaceThing hk hnext ?_ hitem (.inl hcls)
    rw [Item.isAlwaysOnTop, Item.getType, hiid]
    have heq : (item.item.getType c.types).alwaysOnTop =
        (c.types.getItemType newId).alwaysOnTop := by
      simpa using htop
    exact heq.symm
  refine ⟨_, _, ?_, hplaced, hiid, .inl hcls, .inr rfl, ?_⟩
  · unfold transformOnTile
    dsimp only
    rw [if_neg htop, if_neg htype, c.createItem_kit hid]
  · rw [Catalogue.destroyable, if_neg htop, if_neg htype, hcount, hi,
      Item.uniqueId_setDefaultDuration]
    rfl

end Remade

theorem exists_remade (h : Indexed c.types True t) (hk : t.items.items[k]? = some item)
    (hsize : t.items.size ≤ 0xFFFF) (hitem : IsFurniture item.item.cls) (hid : newId ∈ kitIds)
    (hne : item.item.id ≠ newId) (hnext : next ∉ t.allItems.map (·.ref)) :
    ∃ t' new, transformOnTile c t (t.getThingIndex c.types (.item item)).toNat item newId next =
      (t', some new) ∧ Remade c t t' k item newId next new := by
  by_cases htop : ((item.item.getType c.types).alwaysOnTop !=
      (c.types.getItemType newId).alwaysOnTop) = true
  · exact exists_remade_of_top h hk hitem hid hsize _ htop
  by_cases htype : ((item.item.getType c.types).type == (c.types.getItemType newId).type) = true
  · exact exists_remade_of_type h hk hitem hid hne _ htop htype
  · exact exists_remade_of_create h hk hitem hid hnext htop htype

end Depot

end OTServBR
