import OTServBR.House.Rebuild

/-! # The list of goods

The loop over the tiles of a house puts down what goes to the inbox. Each piece
of furniture becomes one new item on its tile, unless a trash holder on the
tile destroys the new item before it is on the list.
-/

namespace OTServBR.Depot

open Tile

variable {c : Catalogue} {teleport : Teleports} {s : Estate} {t t' : Tile} {n k : ℕ}
  {item new : TileItem} {i : Item} {id newId : UInt16}

/-! ## What goes -/

/-- What an item of a house is turned into, if it is. -/
def becomes (c : Catalogue) (i : Item) : Option UInt16 :=
  if isWrapable c.furniture i.id then some decorationKit
  else if i.isPickupable c.types then none
  else (constructionKits.find? (fits c.furniture i.id)).map (·.1)

/-- Whether what an item holds goes by itself. -/
def opens (c : Catalogue) (i : Item) : Bool :=
  i.cls.isContainer && (isWrapable c.furniture i.id || !i.isPickupable c.types)

/-- Whether an item goes, as it is or as what it is turned into. -/
def goes (c : Catalogue) (i : Item) : Bool := (becomes c i).isSome || i.isPickupable c.types

/-- No kit is built into another kit. -/
theorem not_fits_kit {kit kit' : UInt16 × UInt16} (hkit : kit ∈ constructionKits)
    (hkit' : kit' ∈ constructionKits) : fits c.furniture kit.1 kit' = false := by
  have hall : constructionKits.all (fun kit => constructionKits.all fun kit' =>
      kit'.2 != kit.1) = true := by
    decide +kernel
  have hne := List.all_eq_true.1 (List.all_eq_true.1 hall kit hkit) kit' hkit'
  simpa [fits, c.not_rotatable kit hkit] using hne

theorem becomes_mem_kitIds (h : becomes c i = some id) : id ∈ kitIds := by
  unfold becomes at h
  split_ifs at h with hwrap hpick
  · rw [← Option.some.inj h]
    exact List.mem_cons_self
  · obtain ⟨kit, hkit, rfl⟩ := Option.map_eq_some_iff.1 h
    exact List.mem_cons_of_mem _ (List.mem_map_of_mem (List.mem_of_find?_eq_some hkit))

/-- Nothing is turned into what it is already. -/
theorem becomes_ne (h : becomes c i = some id) : i.id ≠ id := by
  rintro rfl
  unfold becomes at h
  split_ifs at h with hwrap hpick
  · rw [← Option.some.inj h, c.not_wrapable] at hwrap
    cases hwrap
  · obtain ⟨kit, hkit, hid⟩ := Option.map_eq_some_iff.1 h
    have hmem := List.mem_of_find?_eq_some hkit
    have hfits := List.find?_some hkit
    rw [← hid, not_fits_kit hmem hmem] at hfits
    cases hfits

/-! ## Trash holders -/

theorem getTrashHolder_isSome : (getTrashHolder t).isSome =
    (hasFlag TileState.trashHolder t.flags && t.allItems.any (·.item.cls == .trashHolder)) := by
  have hfind : ∀ (l : List TileItem) (p : TileItem → Bool),
      (l.reverse.find? p).isSome = l.any p := by
    intro l p
    rw [Bool.eq_iff_iff, List.find?_isSome, List.any_eq_true]
    simp only [List.mem_reverse]
  unfold getTrashHolder allItems
  cases hasFlag TileState.trashHolder t.flags with
  | false => rfl
  | true =>
    rw [List.any_append, Bool.true_and]
    cases t.ground with
    | none => simp [hfind]
    | some g =>
      cases hg : g.item.cls == .trashHolder with
      | false => simp [hg, Option.filter, hfind]
      | true => simp [hg, Option.filter]

theorem getTrashHolder_mem (h : getTrashHolder t = some new) :
    new ∈ t.allItems ∧ new.item.cls = .trashHolder := by
  unfold getTrashHolder at h
  split_ifs at h
  split at h
  · next g hg =>
    obtain ⟨hground, hcls⟩ := Option.filter_eq_some_iff.1 hg
    obtain rfl := Option.some.inj h
    exact ⟨List.mem_append_left _ (by simp [hground]), by simpa using hcls⟩
  · exact ⟨List.mem_append_right _ (List.mem_reverse.1 (List.mem_of_find?_eq_some h)),
      by simpa using List.find?_some h⟩

/-- An exchange of furniture makes no difference to the trash holders. -/
theorem getTrashHolder_isSome_of_placed (h : Placed c.types t t' k new)
    (hk : t.items.items[k]? = some item) (hitem : IsFurniture item.item.cls)
    (hnew : IsFurniture new.item.cls) :
    (getTrashHolder t').isSome = (getTrashHolder t).isSome := by
  have hcls : ∀ {i : TileItem}, IsFurniture i.item.cls → (i.item.cls == .trashHolder) = false := by
    rintro i (hi | hi | hi) <;> rw [hi] <;> rfl
  have hany : t'.allItems.any (·.item.cls == .trashHolder) =
      t.allItems.any (·.item.cls == .trashHolder) := by
    rw [h.allItems_perm.any_eq, (allItems_perm_of_getElem? hk).any_eq, List.any_cons, List.any_cons,
      hcls hitem, hcls hnew]
  have hmark : hasFlag TileState.trashHolder t'.flags = hasFlag TileState.trashHolder t.flags :=
    h.marks .trashHolder (by simp)
  rw [getTrashHolder_isSome, getTrashHolder_isSome, hany, hmark]

/-! ## The state between two items -/

structure Kept (c : Catalogue) (s : Estate) : Prop where
  indexed : ∀ n, Indexed c.types True (s.tiles n)
  size_le : ∀ n, (s.tiles n).items.size ≤ 0xFFFF
  coherent : s.custody.Coherent TileItem.ref
  lt_next : ∀ p, ∀ i ∈ s.held p, i.ref < s.next
  furniture : ∀ n, ∀ i ∈ (s.tiles n).items.items, (becomes c i.item).isSome →
    IsFurniture i.item.cls

theorem held_setTile_of_ne {p : Holder} (hp : p ≠ .tile n) (touched : List ℕ) :
    (s.setTile n t touched).held p = s.held p := by
  cases p with
  | tile m =>
    have hne : m ≠ n := fun heq => hp (congrArg _ heq)
    exact congrArg allItems (Function.update_of_ne hne ..)
  | container ref => rfl
  | inbox => rfl

theorem held_setTile_self (touched : List ℕ) :
    (s.setTile n t touched).held (.tile n) = t.allItems :=
  congrArg allItems (Function.update_self ..)

/-- A tile that changes takes no items from other places. -/
theorem Kept.setTile (h : Kept c s) {touched : List ℕ} {next : ℕ}
    (hindexed : Indexed c.types True t) (hsize : t.items.size ≤ 0xFFFF) (hnext : s.next ≤ next)
    (hrefs : ∀ i ∈ t.allItems, i.ref < next ∧
      (i.ref ∈ touched ∨ i.ref ∈ (s.tiles n).allItems.map (·.ref)))
    (htouched : ∀ r ∈ touched, s.parent r = some (.tile n) ∨ s.next ≤ r)
    (hfurniture : ∀ i ∈ t.items.items, (becomes c i.item).isSome → IsFurniture i.item.cls) :
    Kept c { s.setTile n t touched with next := next } := by
  set s' := { s.setTile n t touched with next := next } with hs'
  have hself : s'.held (.tile n) = t.allItems := held_setTile_self touched
  have hother : ∀ {p}, p ≠ .tile n → s'.held p = s.held p := fun hp => held_setTile_of_ne hp touched
  have hparent : ∀ r, s'.parent r = if r ∈ touched then
      if r ∈ t.allItems.map (·.ref) then some (.tile n) else none else s.parent r := fun _ => rfl
  have htile : ∀ {m}, m ≠ n → s'.tiles m = s.tiles m := fun hm => Function.update_of_ne hm ..
  have htile_self : s'.tiles n = t := Function.update_self ..
  refine ⟨fun m => ?_, fun m => ?_, ⟨fun p i hi => ?_, fun p => ?_⟩, fun p i hi => ?_,
    fun m i hi => ?_⟩
  · by_cases hm : m = n
    · rw [hm, htile_self]
      exact hindexed
    · rw [htile hm]
      exact h.indexed m
  · by_cases hm : m = n
    · rw [hm, htile_self]
      exact hsize
    · rw [htile hm]
      exact h.size_le m
  · change i ∈ s'.held p at hi
    change s'.parent i.ref = some p
    rw [hparent]
    by_cases hp : p = .tile n
    · subst hp
      rw [hself] at hi
      split_ifs with htouch hmem
      · rfl
      · exact absurd (List.mem_map_of_mem hi) hmem
      · obtain ⟨j, hj, href⟩ := List.mem_map.1 ((hrefs i hi).2.resolve_left htouch)
        rw [← href]
        exact h.coherent.parent (.tile n) j hj
    · rw [hother hp] at hi
      have hplace : s.parent i.ref = some p := h.coherent.parent p i hi
      rw [if_neg, hplace]
      intro htouch
      rcases htouched _ htouch with hthere | hfresh
      · rw [hplace] at hthere
        exact hp (Option.some.inj hthere)
      · exact absurd (h.lt_next p i hi) hfresh.not_gt
  · change ((s'.held p).map TileItem.ref).Nodup
    by_cases hp : p = .tile n
    · rw [hp, hself]
      exact hindexed.refs
    · rw [hother hp]
      exact h.coherent.nodup p
  · by_cases hp : p = .tile n
    · rw [hp, hself] at hi
      exact (hrefs i hi).1
    · rw [hother hp] at hi
      exact (h.lt_next p i hi).trans_le hnext
  · by_cases hm : m = n
    · rw [hm, htile_self] at hi
      exact hfurniture i hi
    · rw [htile hm] at hi
      exact h.furniture m i hi

/-- The state without an item that was on a tile. -/
def lost (c : Catalogue) (s : Estate) (n : ℕ) (i : TileItem) : Estate :=
  s.setTile n ((s.tiles n).removeThing c.types (.item i) (UInt32.ofNat i.item.getItemCount)) [i.ref]

/-- A kit that comes to a tile is lost if there is a trash holder that can destroy it. -/
theorem postAddNotification_eq (hindexed : Indexed c.types True (s.tiles n))
    (hmem : new ∈ (s.tiles n).allItems) (hcls : IsFurniture new.item.cls)
    (hid : new.item.id ∈ kitIds)
    (hmark : hasFlag TileState.teleport (s.tiles n).flags = false) :
    postAddNotification c teleport s n new =
      if (getTrashHolder (s.tiles n)).isSome ∧ !new.item.hasAttribute .uniqueId ∧
        new.item.count ≠ 0 then lost c s n new else s := by
  have hplain : Plain (new.item.getType c.types) new.item.id := c.plain _ hid
  have hremove : new.item.cls.canRemove = true := by
    rcases hcls with h | h | h <;> rw [h] <;> rfl
  obtain ⟨m, hindex, -⟩ := hindexed.getThing_getThingIndex (mem_things_item.2 hmem)
  have hfound : ((s.tiles n).getThingIndex c.types (.item new) == -1) = false := by
    rw [hindex]
    simp
  have hcount : (new.item.getItemCount == 0) = decide (new.item.count = 0) := by
    rw [Item.getItemCount, Bool.eq_iff_iff, beq_iff_eq, decide_eq_true_iff, ← UInt8.toNat_inj]
    rfl
  unfold postAddNotification
  dsimp only
  rw [hmark, if_neg Bool.false_ne_true]
  cases hholder : getTrashHolder (s.tiles n) with
  | none => simp
  | some holder =>
    obtain ⟨hmem', hcls'⟩ := getTrashHolder_mem hholder
    have hne : (new.ref == holder.ref) = false := by
      rw [beq_eq_false_iff_ne]
      intro href
      obtain rfl := hindexed.eq_of_ref hmem' hmem href
      rcases hcls with h | h | h <;> rw [hcls'] at h <;> cases h
    unfold discard internalRemoveItem lost
    simp only [hne, Item.isMoveable, hplain.moveable, Item.isHangable, hplain.isHangable, hfound,
      hcount, hremove]
    cases new.item.hasAttribute .uniqueId <;> by_cases hzero : new.item.count = 0 <;> simp [hzero]

/-- Furniture becomes a new item in its place on the tile. -/
theorem transformItem_eq (teleport : Teleports) (h : Kept c s)
    (hk : (s.tiles n).items.items[k]? = some item)
    (hbecomes : IsFurniture item.item.cls) (hid : newId ∈ kitIds) (hne : item.item.id ≠ newId)
    (hmark : hasFlag TileState.teleport (s.tiles n).flags = false) :
    ∃ t' new, Remade c (s.tiles n) t' k item newId s.next new ∧
      transformItem c teleport s item newId =
        let s' := { s.setTile n t' [item.ref, new.ref] with next := s.next + 1 }
        { state := if (getTrashHolder (s.tiles n)).isSome ∧ c.destroyable item.item newId then
            lost c s' n new else s'
          newItem := some new
          item := if new.ref = item.ref then new else item } := by
  have hmem := mem_of_getElem? hk
  have hnext : s.next ∉ (s.tiles n).allItems.map (·.ref) := by
    intro hmem
    obtain ⟨i, hi, href⟩ := List.mem_map.1 hmem
    exact (h.lt_next (.tile n) i hi).ne href
  have hparent : s.parent item.ref = some (.tile n) := h.coherent.parent (.tile n) item hmem
  obtain ⟨t', new, htransform, hremade⟩ := exists_remade (h.indexed n) hk (h.size_le n) hbecomes hid
    hne hnext
  refine ⟨t', new, hremade, ?_⟩
  have hplain := c.plain newId hid
  have hsame : ¬(item.item.id == newId) = true := by simpa using hne
  have hgo : ¬((s.tiles n).getThingIndex c.types (.item item) == -1 ||
      (c.types.getItemType newId).id == 0) = true := by
    simpa [hplain.id, (h.indexed n).getThingIndex_ne hk] using (kitIds_plain newId hid).1
  unfold transformItem
  rw [if_neg hsame, hparent]
  dsimp only
  rw [if_neg hgo, htransform]
  dsimp only
  set s' := { s.setTile n t' [item.ref, new.ref] with next := s.next + 1 }
  have htile : s'.tiles n = t' := Function.update_self ..
  have hnew : new ∈ (s'.tiles n).allItems := by
    rw [htile]
    exact hremade.placed.allItems_perm.mem_iff.2 List.mem_cons_self
  have hmark' : hasFlag TileState.teleport (s'.tiles n).flags = false := by
    rw [htile, ← hmark]
    exact hremade.placed.marks .teleport (by simp)
  have hindexed : Indexed c.types True (s'.tiles n) := htile ▸ hremade.placed.indexed
  have hkit : new.item.id ∈ kitIds := hremade.id ▸ hid
  have hdestroy : c.destroyable item.item newId = true ↔
      (!new.item.hasAttribute .uniqueId) = true ∧ new.item.count ≠ 0 := by
    rw [← hremade.destroyable, Bool.and_eq_true, bne_iff_ne]
  rw [postAddNotification_eq hindexed hnew hremade.cls hkit hmark', htile,
    getTrashHolder_isSome_of_placed hremade.placed hk hbecomes hremade.cls]
  simp only [hdestroy, beq_iff_eq]

/-! ## Steps -/

/-- A state that comes after another one while the items of some tiles are looked at. -/
structure Later (c : Catalogue) (ns : List ℕ) (s s' : Estate) : Prop where
  kept : Kept c s'
  tiles_eq : ∀ m, m ∉ ns → s'.tiles m = s.tiles m
  marks : ∀ m, SameMarks (s.tiles m) (s'.tiles m)
  contents_eq : s'.contents = s.contents
  inbox_eq : s'.inbox = s.inbox
  next_le : s.next ≤ s'.next
  parent_none : ∀ r < s.next, s.parent r = none → s'.parent r = none

section Later
variable {ns ns' : List ℕ} {s₁ s₂ s₃ : Estate}

theorem Later.refl (h : Kept c s) : Later c ns s s :=
  ⟨h, fun _ _ => rfl, fun _ _ _ => rfl, rfl, rfl, le_rfl, fun _ _ hr => hr⟩

theorem Later.mono (h : Later c ns s₁ s₂) (hsub : ns ⊆ ns') : Later c ns' s₁ s₂ :=
  { h with tiles_eq := fun m hm => h.tiles_eq m fun hmem => hm (hsub hmem) }

theorem Later.trans (h : Later c ns s₁ s₂) (h' : Later c ns s₂ s₃) : Later c ns s₁ s₃ where
  kept := h'.kept
  tiles_eq m hm := (h'.tiles_eq m hm).trans (h.tiles_eq m hm)
  marks m := (h.marks m).trans (h'.marks m)
  contents_eq := h'.contents_eq.trans h.contents_eq
  inbox_eq := h'.inbox_eq.trans h.inbox_eq
  next_le := h.next_le.trans h'.next_le
  parent_none r hr hnone := h'.parent_none r (hr.trans_le h.next_le) (h.parent_none r hr hnone)

end Later

/-- A change of a tile that is no place for lost items. -/
theorem later_setTile {touched : List ℕ} {next : ℕ}
    (hkept : Kept c { s.setTile n t touched with next := next }) (hnext : s.next ≤ next)
    (hmarks : SameMarks (s.tiles n) t)
    (hstay : ∀ r < s.next, s.parent r = none → r ∈ touched → r ∉ t.allItems.map (·.ref)) :
    Later c [n] s { s.setTile n t touched with next := next } where
  kept := hkept
  tiles_eq m hm := Function.update_of_ne (fun heq => hm (List.mem_singleton.2 heq)) ..
  marks m f hf := by
    by_cases hm : m = n
    · subst hm
      have htile : (s.setTile m t touched).tiles m = t := Function.update_self ..
      exact (congrArg (fun t : Tile => hasFlag f.mask t.flags) htile).trans (hmarks f hf)
    · have htile : (s.setTile n t touched).tiles m = s.tiles m := Function.update_of_ne hm ..
      exact congrArg (fun t : Tile => hasFlag f.mask t.flags) htile
  contents_eq := rfl
  inbox_eq := rfl
  next_le := hnext
  parent_none r hr hnone := by
    change (if r ∈ touched then _ else _) = none
    split_ifs with htouch hmem
    · exact absurd hmem (hstay r hr hnone htouch)
    · rfl
    · exact hnone

theorem later_lost (h : Kept c s) (hk : (s.tiles n).items.items[k]? = some item)
    (hcls : IsFurniture item.item.cls) :
    Later c [n] s (lost c s n item) ∧ (lost c s n item).parent item.ref = none := by
  obtain ⟨v, heq, hv⟩ := (h.indexed n).removeThing_whole hk
  have hall := (h.indexed n).allItems_removeThing hk
  have hindexed := (h.indexed n).removeThing (.item item) (UInt32.ofNat item.item.getItemCount)
  unfold lost
  set t := (s.tiles n).removeThing c.types (.item item) (UInt32.ofNat item.item.getItemCount)
  have hnot : item.ref ∉ t.allItems.map (·.ref) := by
    intro hmem
    obtain ⟨i, hi, href⟩ := List.mem_map.1 hmem
    rw [hall] at hi
    simpa [href] using (List.mem_filter.1 hi).2
  have hitems : t.items.items = (s.tiles n).items.items.filter (·.ref != item.ref) := by
    rw [heq]
    exact hv
  have hkept : Kept c { s.setTile n t [item.ref] with next := s.next } := by
    apply h.setTile hindexed
    · exact (List.length_filter_le _ _).trans (h.size_le n) |>.trans_eq' (by
        rw [TileItemVector.size, hitems])
    · exact le_rfl
    · intro i hi
      rw [hall] at hi
      have hmem := List.mem_of_mem_filter hi
      exact ⟨h.lt_next (.tile n) i hmem, .inr (List.mem_map_of_mem hmem)⟩
    · intro r hr
      rw [List.mem_singleton.1 hr]
      exact .inl (h.coherent.parent (.tile n) item (mem_of_getElem? hk))
    · intro i hi
      rw [hitems] at hi
      exact h.furniture n i (List.mem_of_mem_filter hi)
  have hmarks : SameMarks (s.tiles n) t := by
    rw [heq]
    exact sameMarks_resetFlagsOf (t := { s.tiles n with items := v }) hcls
  refine ⟨later_setTile hkept le_rfl hmarks fun r _ _ hr => ?_, ?_⟩
  · rw [List.mem_singleton.1 hr]
    exact hnot
  · change (if _ then if _ then _ else _ else _) = none
    rw [if_pos (List.mem_singleton_self _), if_neg hnot]

/-- One piece of furniture on a tile is turned into one new item there, or into nothing. -/
theorem later_transformItem (teleport : Teleports) (h : Kept c s)
    (hk : (s.tiles n).items.items[k]? = some item)
    (hcls : IsFurniture item.item.cls) (hid : newId ∈ kitIds) (hne : item.item.id ≠ newId)
    (hmark : hasFlag TileState.teleport (s.tiles n).flags = false) :
    ∃ s' new, transformItem c teleport s item newId =
        { state := s', newItem := some new, item := if new.ref = item.ref then new else item } ∧
      Later c [n] s s' ∧ new.item.id = newId ∧ IsFurniture new.item.cls ∧ new.ref < s'.next ∧
      if (getTrashHolder (s.tiles n)).isSome ∧ c.destroyable item.item newId then
        s'.parent new.ref = none
      else Placed c.types (s.tiles n) (s'.tiles n) k new := by
  obtain ⟨t', new, hremade, heq⟩ := transformItem_eq teleport h hk hcls hid hne hmark
  set s₁ := { s.setTile n t' [item.ref, new.ref] with next := s.next + 1 } with hs₁
  have hplaced := hremade.placed
  have hmem := mem_of_getElem? hk
  have hold : ∀ i ∈ t'.allItems, i = new ∨ i ∈ (s.tiles n).allItems := by
    intro i hi
    rw [hplaced.allItems_perm.mem_iff, List.mem_cons] at hi
    refine hi.imp_right fun hi => (allItems_perm_of_getElem? hk).mem_iff.2 ?_
    exact List.mem_cons_of_mem _ hi
  have hnewref : new.ref = item.ref ∨ new.ref = s.next := hremade.ref.imp_left And.left
  have hnewlt : new.ref < s.next + 1 := by
    have hlt := h.lt_next (.tile n) item hmem
    omega
  have hkept : Kept c s₁ := by
    apply h.setTile hplaced.indexed
    · have hlen := hplaced.items_perm.length_eq
      rw [List.length_cons, ← List.length_cons, ← (items_perm_of_getElem? hk).length_eq] at hlen
      exact hlen.trans_le (h.size_le n)
    · exact Nat.le_succ _
    · intro i hi
      rcases hold i hi with rfl | hi
      · exact ⟨hnewlt, .inl (by simp)⟩
      · exact ⟨(h.lt_next (.tile n) i hi).trans (Nat.lt_succ_self _),
          .inr (List.mem_map_of_mem hi)⟩
    · intro r hr
      have hitem : s.parent item.ref = some (.tile n) := h.coherent.parent (.tile n) item hmem
      rcases List.mem_pair.1 hr with rfl | rfl
      · exact .inl hitem
      · rcases hnewref with href | href
        · exact .inl (href ▸ hitem)
        · exact .inr href.ge
    · intro i hi hb
      rw [hplaced.items_perm.mem_iff, List.mem_cons] at hi
      rcases hi with rfl | hi
      · exact hremade.cls
      · exact h.furniture n i (List.mem_of_mem_eraseIdx hi) hb
  have hlater : Later c [n] s s₁ := by
    refine later_setTile hkept (Nat.le_succ _) hplaced.marks fun r hr hnone htouch => ?_
    have hitem : s.parent item.ref = some (.tile n) := h.coherent.parent (.tile n) item hmem
    rcases List.mem_pair.1 htouch with rfl | rfl
    · rw [hitem] at hnone
      cases hnone
    · rcases hnewref with href | href
      · rw [href, hitem] at hnone
        cases hnone
      · omega
  have htile : s₁.tiles n = t' := Function.update_self ..
  dsimp only at heq
  by_cases hlost : (getTrashHolder (s.tiles n)).isSome ∧ c.destroyable item.item newId
  · rw [if_pos hlost] at heq
    obtain ⟨k', hk'⟩ := List.getElem?_of_mem (hplaced.items_perm.mem_iff.2 List.mem_cons_self)
    obtain ⟨hlater', hnone⟩ := later_lost hkept (n := n) (htile ▸ hk') hremade.cls
    refine ⟨_, new, heq, hlater.trans hlater', hremade.id, hremade.cls, ?_, ?_⟩
    · exact hnewlt
    · rw [if_pos hlost]
      exact hnone
  · rw [if_neg hlost] at heq
    refine ⟨_, new, heq, hlater, hremade.id, hremade.cls, hnewlt, ?_⟩
    rw [if_neg hlost, htile]
    exact hplaced

/-! ## One round -/

/-- Whether a trash holder of the tile destroys what an item of the tile is turned into. -/
def doomed (c : Catalogue) (t : Tile) (i : Item) : Bool :=
  match becomes c i with
  | some id => (getTrashHolder t).isSome && c.destroyable i id
  | none => false

/-- An item of a house and the one that there is instead. -/
def Becomes (c : Catalogue) (item out : TileItem) : Prop :=
  match becomes c item.item with
  | none => out = item
  | some id => out.item.id = id ∧ (isWrapable c.furniture item.item.id →
      ∃ i : Item, out.item = wrapped (getName c item.item) item.item.id i)

/-- What goes on the list for an item and the one that there is instead. -/
def goods (c : Catalogue) (s : Estate) (p : TileItem × TileItem) : List TileItem :=
  (if opens c p.1.item then s.contents p.1.ref else []) ++ if goes c p.1.item then [p.2] else []

/-- A tile after a round that loses nothing, with an item and what there is instead. -/
structure Instead (t t' : Tile) (k : ℕ) (out : TileItem) : Prop where
  ground : t'.ground = t.ground
  trash : (getTrashHolder t').isSome = (getTrashHolder t).isSome
  split : ∃ pre, t'.items.items = pre ++ t.items.items.drop (k + 1) ∧
    pre.Perm (out :: t.items.items.take k)

theorem instead_self (hk : t.items.items[k]? = some item) : Instead t t k item := by
  refine ⟨rfl, rfl, t.items.items.take k ++ [item], ?_, List.perm_append_singleton _ _⟩
  rw [List.append_assoc]
  exact items_eq_of_getElem? hk

theorem instead_of_placed (h : Placed c.types t t' k new) (hk : t.items.items[k]? = some item)
    (hitem : IsFurniture item.item.cls) (hnew : IsFurniture new.item.cls) : Instead t t' k new :=
  ⟨h.ground, getTrashHolder_isSome_of_placed h hk hitem hnew, h.split⟩

/-- What is behind the position is next. -/
theorem Instead.split_append {pre rest : List TileItem} (h : Instead t t' pre.length new)
    (hitems : t.items.items = pre ++ item :: rest) :
    ∃ pre', t'.items.items = pre' ++ rest ∧ pre'.Perm (new :: pre) := by
  obtain ⟨pre', heq, hperm⟩ := h.split
  have htake : t.items.items.take pre.length = pre := by rw [hitems, List.take_left]
  have hdrop : t.items.items.drop (pre.length + 1) = rest := by
    rw [hitems, ← List.drop_drop, List.drop_left]
    rfl
  exact ⟨pre', by rw [heq, hdrop], htake ▸ hperm⟩

theorem Instead.doomed_eq (h : Instead t t' k new) (i : Item) : doomed c t' i = doomed c t i := by
  unfold doomed
  rw [h.trash]

/-- What a round of the loop does. -/
structure Collected (c : Catalogue) (n k : ℕ) (item out : TileItem) (w w' : Walk) : Prop where
  later : Later c [n] w.state w'.state
  moveItemList : w'.moveItemList =
    w.moveItemList ++ (goods c w.state (item, out)).map (some ·.ref)
  becomes : Becomes c item out
  instead : doomed c (w.state.tiles n) item.item = false →
    Instead (w.state.tiles n) (w'.state.tiles n) k out
  lost : doomed c (w.state.tiles n) item.item = true →
    w'.state.parent out.ref = none ∧ out.ref < w'.state.next ∧ goes c item.item = true

variable {w : Walk}

theorem tryKits_of_not_fits {kits : List (UInt16 × UInt16)}
    (h : ∀ kit ∈ kits, fits c.furniture item.item.id kit = false) :
    tryKits c teleport kits w item = w := by
  induction kits with
  | nil => rfl
  | cons kit kits ih =>
    have hkit := h kit List.mem_cons_self
    rw [fits, Bool.or_eq_false_iff] at hkit
    rw [tryKits, hkit.1, hkit.2, if_neg Bool.false_ne_true, if_neg Bool.false_ne_true]
    exact ih fun kit' hmem => h kit' (List.mem_cons_of_mem kit hmem)

/-- The loop over the kits turns a piece into the kit that fits, and into no other one. -/
theorem tryKits_of_find? (teleport : Teleports) (w : Walk) {kits : List (UInt16 × UInt16)}
    {kit : UInt16 × UInt16}
    (hkits : kits ⊆ constructionKits)
    (hone : kits.Pairwise fun kit kit' => fits c.furniture item.item.id kit = true →
      fits c.furniture item.item.id kit' = false)
    (hfind : kits.find? (fits c.furniture item.item.id) = some kit)
    (hout : (w.pushTransformed c teleport item kit.1).2.item.id = item.item.id ∨
      (w.pushTransformed c teleport item kit.1).2.item.id = kit.1) :
    tryKits c teleport kits w item = (w.pushTransformed c teleport item kit.1).1 := by
  induction kits with
  | nil => cases hfind
  | cons kit' kits ih =>
    obtain ⟨hfirst, hone⟩ := List.pairwise_cons.1 hone
    obtain ⟨hmem, hkits⟩ := List.cons_subset.1 hkits
    rw [tryKits]
    cases hfits : fits c.furniture item.item.id kit' with
    | true =>
      rw [List.find?_cons_of_pos hfits] at hfind
      obtain rfl := Option.some.inj hfind
      split_ifs with hsame hrotates
      · rfl
      · refine tryKits_of_not_fits fun other hother => ?_
        rcases hout with hid | hid
        · rw [hid]
          exact hfirst other hother hfits
        · rw [hid]
          exact not_fits_kit hmem (hkits hother)
      · rw [fits, Bool.or_eq_true] at hfits
        exact absurd (hfits.resolve_left hsame) hrotates
    | false =>
      rw [List.find?_cons_of_neg (by simp [hfits])] at hfind
      rw [fits, Bool.or_eq_false_iff] at hfits
      rw [hfits.1, hfits.2, if_neg Bool.false_ne_true, if_neg Bool.false_ne_true]
      exact ih hkits hone hfind

theorem id_wrapped (name : Str) (i : Item) : (wrapped name id i).id = i.id := by
  unfold wrapped Item.setCustomAttribute Item.setStrAttr
  rfl

theorem cls_wrapped (name : Str) (i : Item) : (wrapped name id i).cls = i.cls := by
  unfold wrapped Item.setCustomAttribute Item.setStrAttr
  rfl

/-- A new item is changed where it is. -/
theorem later_modifyItem (h : Kept c s) (hplaced : Placed c.types t (s.tiles n) k new)
    (hnew : IsFurniture new.item.cls) {f : Item → Item} (hid : (f new.item).id = new.item.id)
    (hcls : (f new.item).cls = new.item.cls) :
    Later c [n] s (s.modifyItem new.ref f) ∧
      Placed c.types t ((s.modifyItem new.ref f).tiles n) k { new with item := f new.item } := by
  have hmem : new ∈ (s.tiles n).allItems := hplaced.allItems_perm.mem_iff.2 List.mem_cons_self
  have hparent : s.parent new.ref = some (.tile n) := h.coherent.parent (.tile n) new hmem
  have htop : (f new.item).isAlwaysOnTop c.types = new.item.isAlwaysOnTop c.types := by
    rw [Item.isAlwaysOnTop, Item.isAlwaysOnTop, Item.getType, Item.getType, hid]
  have hplaced' := hplaced.modifyItem htop
  set t' := (s.tiles n).modifyItem new.ref f
  have hset : s.modifyItem new.ref f = { s.setTile n t' [] with next := s.next } := by
    unfold Estate.modifyItem
    rw [hparent]
    simp [Estate.setTile, t']
  have hold : ∀ i ∈ t'.items.items,
      i = { new with item := f new.item } ∨ i ∈ (s.tiles n).items.items := by
    intro i hi
    rw [hplaced'.items_perm.mem_iff, List.mem_cons] at hi
    refine hi.imp_right fun hi => hplaced.items_perm.mem_iff.2 (List.mem_cons_of_mem _ hi)
  have hkept : Kept c { s.setTile n t' [] with next := s.next } := by
    apply h.setTile hplaced'.indexed
    · have hlen := hplaced'.items_perm.length_eq.trans hplaced.items_perm.length_eq.symm
      exact hlen.trans_le (h.size_le n)
    · exact le_rfl
    · intro i hi
      have hrefs := List.mem_map_of_mem (f := TileItem.ref) hi
      rw [refs_modifyItem] at hrefs
      obtain ⟨j, hj, href⟩ := List.mem_map.1 hrefs
      exact ⟨href ▸ h.lt_next (.tile n) j hj, .inr hrefs⟩
    · exact fun r hr => absurd hr List.not_mem_nil
    · intro i hi hb
      rcases hold i hi with rfl | hi
      · exact hcls ▸ hnew
      · exact h.furniture n i hi hb
  have htile : ({ s.setTile n t' [] with next := s.next } : Estate).tiles n = t' :=
    Function.update_self ..
  rw [hset, htile]
  exact ⟨later_setTile hkept le_rfl (fun _ _ => rfl) fun r _ _ hr => absurd hr List.not_mem_nil,
    hplaced'⟩

theorem state_pushContents : (w.pushContents item).state = w.state := by
  unfold Walk.pushContents Walk.push
  split_ifs <;> rfl

theorem moveItemList_pushContents (hopens : opens c item.item = item.item.cls.isContainer) :
    (w.pushContents item).moveItemList = w.moveItemList ++
      (if opens c item.item then w.state.contents item.ref else []).map (some ·.ref) := by
  rw [hopens]
  unfold Walk.pushContents Walk.push
  split_ifs
  · rfl
  · rw [List.map_nil, List.append_nil]

theorem doomed_iff (h : becomes c item.item = some id) : doomed c t item.item = true ↔
    (getTrashHolder t).isSome ∧ c.destroyable item.item id := by
  rw [doomed, h, Bool.and_eq_true]

/-- Wrapable furniture is wrapped. -/
theorem collected_of_wrapable (teleport : Teleports) (h : Kept c w.state)
    (hk : (w.state.tiles n).items.items[k]? = some item)
    (hmark : hasFlag TileState.teleport (w.state.tiles n).flags = false)
    (hwrap : isWrapable c.furniture item.item.id = true) :
    ∃ w' out, collectItem c teleport w item = some w' ∧ Collected c n k item out w w' := by
  have hbecomes : becomes c item.item = some decorationKit := if_pos hwrap
  have hcls := h.furniture n item (List.mem_of_getElem? hk) (by rw [hbecomes]; rfl)
  obtain ⟨s', new, heq, hlater, hid, hnew, hlt, hcase⟩ := later_transformItem teleport h hk hcls
    (becomes_mem_kitIds hbecomes) (becomes_ne hbecomes) hmark
  set name := getName c item.item
  have hgoes : goes c item.item = true := by rw [goes, hbecomes]; rfl
  have hopens : opens c item.item = item.item.cls.isContainer := by
    rw [opens, hwrap, Bool.true_or, Bool.and_true]
  set f := wrapped name item.item.id
  refine ⟨Walk.push ⟨s'.modifyItem new.ref f, (w.pushContents item).moveItemList⟩ [some new.ref],
    { new with item := f new.item }, ?_, ?_⟩
  · unfold collectItem
    rw [if_pos hwrap]
    dsimp only
    rw [state_pushContents, heq]
    rfl
  have hlist : (w.pushContents item).moveItemList ++ [some new.ref] = w.moveItemList ++
      (goods c w.state (item, { new with item := f new.item })).map (some ·.ref) := by
    rw [moveItemList_pushContents hopens, goods, if_pos hgoes, List.map_append, List.append_assoc]
    rfl
  have hbecomes' : Becomes c item { new with item := f new.item } := by
    rw [Becomes, hbecomes]
    exact ⟨(id_wrapped name new.item).trans hid, fun _ => ⟨new.item, rfl⟩⟩
  by_cases hlost : (getTrashHolder (w.state.tiles n)).isSome ∧
      c.destroyable item.item decorationKit
  · rw [if_pos hlost] at hcase
    have hsame : s'.modifyItem new.ref f = s' := by
      unfold Estate.modifyItem
      rw [hcase]
    rw [hsame]
    refine ⟨hlater, hlist, hbecomes', fun hnot => ?_, fun _ => ⟨hcase, hlt, hgoes⟩⟩
    rw [(doomed_iff hbecomes).2 hlost] at hnot
    cases hnot
  · rw [if_neg hlost] at hcase
    obtain ⟨hlater', hplaced⟩ := later_modifyItem hlater.kept hcase hnew (id_wrapped name new.item)
      (cls_wrapped name new.item)
    have hnew' : IsFurniture (f new.item).cls := (cls_wrapped name new.item).symm ▸ hnew
    refine ⟨hlater.trans hlater', hlist, hbecomes', fun _ => ?_, fun hdoomed => ?_⟩
    · exact instead_of_placed hplaced hk hcls hnew'
    · exact absurd ((doomed_iff hbecomes).1 hdoomed) hlost

/-- Any other item is pushed, turned into a kit, or left where it is. -/
theorem exists_collected (teleport : Teleports) (h : Kept c w.state)
    (hk : (w.state.tiles n).items.items[k]? = some item)
    (hmark : (becomes c item.item).isSome →
      hasFlag TileState.teleport (w.state.tiles n).flags = false) :
    ∃ w' out, collectItem c teleport w item = some w' ∧ Collected c n k item out w w' := by
  by_cases hwrap : isWrapable c.furniture item.item.id = true
  · have hbecomes : becomes c item.item = some decorationKit := if_pos hwrap
    exact collected_of_wrapable teleport h hk (hmark (by rw [hbecomes]; rfl)) hwrap
  by_cases hpick : item.item.isPickupable c.types = true
  · have hbecomes : becomes c item.item = none := by rw [becomes, if_neg hwrap, if_pos hpick]
    have hopens : opens c item.item = false := by simp [opens, hwrap, hpick]
    refine ⟨w.push [some item.ref], item, ?_, .refl h, ?_, ?_, fun _ => instead_self hk, ?_⟩
    · rw [collectItem, if_neg hwrap, if_pos hpick]
    · simp [Walk.push, goods, hopens, goes, hpick]
    · rw [Becomes, hbecomes]
    · rw [doomed, hbecomes]
      exact fun hdoomed => absurd hdoomed Bool.false_ne_true
  have hopens : opens c item.item = item.item.cls.isContainer := by simp [opens, hpick]
  have hcollect : collectItem c teleport w item =
      some (tryKits c teleport constructionKits (w.pushContents item) item) := by
    rw [collectItem, if_neg hwrap, if_neg hpick]
  have hfind : becomes c item.item =
      (constructionKits.find? (fits c.furniture item.item.id)).map (·.1) := by
    rw [becomes, if_neg hwrap, if_neg hpick]
  cases hkit : constructionKits.find? (fits c.furniture item.item.id) with
  | none =>
    have hbecomes : becomes c item.item = none := by rw [hfind, hkit]; rfl
    have hnone : tryKits c teleport constructionKits (w.pushContents item) item =
        w.pushContents item := by
      refine tryKits_of_not_fits fun kit hmem => ?_
      simpa using List.find?_eq_none.1 hkit kit hmem
    refine ⟨w.pushContents item, item, by rw [hcollect, hnone], ?_, ?_, ?_, fun _ => ?_, ?_⟩
    · rw [state_pushContents]
      exact .refl h
    · simp [moveItemList_pushContents hopens, goods, goes, hbecomes, hpick]
    · rw [Becomes, hbecomes]
    · rw [state_pushContents]
      exact instead_self hk
    · rw [doomed, hbecomes]
      exact fun hdoomed => absurd hdoomed Bool.false_ne_true
  | some kit =>
    have hbecomes : becomes c item.item = some kit.1 := by rw [hfind, hkit]; rfl
    have hsome : (becomes c item.item).isSome := by rw [hbecomes]; rfl
    have hcls := h.furniture n item (List.mem_of_getElem? hk) hsome
    obtain ⟨s', new, heq, hlater, hid, hnew, hlt, hcase⟩ := later_transformItem teleport h hk hcls
      (becomes_mem_kitIds hbecomes) (becomes_ne hbecomes) (hmark hsome)
    have hpush : (w.pushContents item).pushTransformed c teleport item kit.1 =
        (Walk.push ⟨s', (w.pushContents item).moveItemList⟩ [some new.ref],
          if new.ref = item.ref then new else item) := by
      unfold Walk.pushTransformed
      rw [state_pushContents, heq]
      rfl
    have htry := tryKits_of_find? teleport (w.pushContents item)
      (List.Subset.refl _) (c.one_kit item.item.id) hkit (by
        rw [hpush]
        dsimp only
        split_ifs
        · exact .inr hid
        · exact .inl rfl)
    rw [hpush] at htry
    have hgoes : goes c item.item = true := by rw [goes, hbecomes]; rfl
    refine ⟨_, new, hcollect.trans (congrArg some htry), hlater, ?_, ?_, fun hnot => ?_,
      fun hdoomed => ?_⟩
    · rw [goods, if_pos hgoes, List.map_append, ← List.append_assoc,
        ← moveItemList_pushContents hopens]
      rfl
    · rw [Becomes, hbecomes]
      exact ⟨hid, fun hyes => absurd hyes hwrap⟩
    · rw [if_neg fun hlost => by rw [(doomed_iff hbecomes).2 hlost] at hnot; cases hnot] at hcase
      exact instead_of_placed hcase hk hcls hnew
    · rw [if_pos ((doomed_iff hbecomes).1 hdoomed)] at hcase
      exact ⟨hcase, hlt, hgoes⟩

/-! ## The loops -/

/-- No teleport of the tile carries a new item off. -/
def Quiet (c : Catalogue) (t : Tile) : Prop :=
  hasFlag TileState.teleport t.flags = false ∨ ∀ i ∈ t.items.items, becomes c i.item = none

theorem Quiet.mark (h : Quiet c t) (hk : t.items.items[k]? = some item)
    (hsome : (becomes c item.item).isSome) : hasFlag TileState.teleport t.flags = false := by
  refine h.resolve_right fun hnone => ?_
  rw [hnone item (List.mem_of_getElem? hk)] at hsome
  cases hsome

variable {w' : Walk} {out : TileItem}

theorem Collected.quiet (h : Collected c n k item out w w')
    (hk : (w.state.tiles n).items.items[k]? = some item) (hquiet : Quiet c (w.state.tiles n)) :
    Quiet c (w'.state.tiles n) := by
  have hmark : hasFlag TileState.teleport (w'.state.tiles n).flags =
      hasFlag TileState.teleport (w.state.tiles n).flags := h.later.marks n .teleport (by simp)
  rcases hquiet with hflag | hnone
  · exact .inl (hmark.trans hflag)
  · have hitem := hnone item (List.mem_of_getElem? hk)
    have hout : out = item := by
      have hbecomes := h.becomes
      rwa [Becomes, hitem] at hbecomes
    obtain ⟨pre, heq, hperm⟩ := (h.instead (by rw [doomed, hitem])).split
    refine .inr fun i hi => hnone i ?_
    rw [heq, List.mem_append, hperm.mem_iff, List.mem_cons, hout] at hi
    rcases hi with (rfl | hi) | hi
    · exact List.mem_of_getElem? hk
    · exact List.mem_of_mem_take hi
    · exact List.mem_of_mem_drop hi

/-- However the loop over a tile goes on, what is lost stays lost and the list grows. -/
theorem collectFrom_later (teleport : Teleports) (h : Kept c w.state)
    (hquiet : Quiet c (w.state.tiles n)) (m k : ℕ) :
    collectFrom c teleport n m k w = none ∨ ∃ w', collectFrom c teleport n m k w = some w' ∧
      Later c [n] w.state w'.state ∧ Quiet c (w'.state.tiles n) ∧
      w.moveItemList ⊆ w'.moveItemList := by
  induction m generalizing k w with
  | zero => exact .inr ⟨w, rfl, .refl h, hquiet, List.Subset.refl _⟩
  | succ m ih =>
    rw [collectFrom]
    cases hk : (w.state.tiles n).items.items[k]? with
    | none => exact .inl rfl
    | some item =>
      obtain ⟨w₁, out, hround, hcollected⟩ := exists_collected teleport h hk (hquiet.mark hk)
      dsimp only
      rw [hround, Option.bind_some]
      refine (ih hcollected.later.kept (hcollected.quiet hk hquiet) (k + 1)).imp_right ?_
      rintro ⟨w', hrun, hlater, hquiet', hsub⟩
      refine ⟨w', hrun, hcollected.later.trans hlater, hquiet', fun r hr => hsub ?_⟩
      rw [hcollected.moveItemList]
      exact List.mem_append_left _ hr

/-- The loop over a tile that destroys nothing. -/
structure Cleared (c : Catalogue) (n : ℕ) (pre : List TileItem) (pairs : List (TileItem × TileItem))
    (w w' : Walk) : Prop where
  later : Later c [n] w.state w'.state
  becomes : ∀ p ∈ pairs, Becomes c p.1 p.2
  ground : (w'.state.tiles n).ground = (w.state.tiles n).ground
  items : (w'.state.tiles n).items.items.Perm (pre ++ pairs.map Prod.snd)
  moveItemList : w'.moveItemList =
    w.moveItemList ++ (pairs.flatMap (goods c w.state)).map (some ·.ref)

theorem goods_congr {s' : Estate} (h : s'.contents = s.contents) : goods c s' = goods c s := by
  unfold goods
  rw [h]

theorem exists_cleared (teleport : Teleports) (h : Kept c w.state)
    (hquiet : Quiet c (w.state.tiles n))
    {pre rest : List TileItem} (hitems : (w.state.tiles n).items.items = pre ++ rest)
    (hsafe : ∀ i ∈ rest, doomed c (w.state.tiles n) i.item = false) :
    ∃ w' pairs, collectFrom c teleport n rest.length pre.length w = some w' ∧
      pairs.map Prod.fst = rest ∧ Cleared c n pre pairs w w' := by
  induction rest generalizing pre w with
  | nil =>
    refine ⟨w, [], rfl, rfl, .refl h, by simp, rfl, ?_, by simp⟩
    rw [hitems]
    exact .refl _
  | cons item rest ih =>
    have hk : (w.state.tiles n).items.items[pre.length]? = some item := by
      rw [hitems, List.getElem?_append_right le_rfl, Nat.sub_self]
      rfl
    obtain ⟨w₁, out, hround, hcollected⟩ := exists_collected teleport h hk (hquiet.mark hk)
    have hinstead := hcollected.instead (hsafe item List.mem_cons_self)
    obtain ⟨pre₁, heq, hperm⟩ := hinstead.split_append hitems
    have hsafe₁ : ∀ i ∈ rest, doomed c (w₁.state.tiles n) i.item = false := by
      intro i hi
      rw [hinstead.doomed_eq]
      exact hsafe i (List.mem_cons_of_mem item hi)
    obtain ⟨w', pairs, hrun, hfst, hcleared⟩ := ih hcollected.later.kept
      (hcollected.quiet hk hquiet) heq hsafe₁
    refine ⟨w', (item, out) :: pairs, ?_, congrArg (item :: ·) hfst,
      hcollected.later.trans hcleared.later, ?_, hcleared.ground.trans hinstead.ground, ?_, ?_⟩
    · rw [List.length_cons, collectFrom, hk]
      dsimp only
      rw [hround, Option.bind_some, ← hrun, hperm.length_eq, List.length_cons]
    · rintro p hp
      rcases List.mem_cons.1 hp with rfl | hp
      · exact hcollected.becomes
      · exact hcleared.becomes p hp
    · refine hcleared.items.trans ((hperm.append_right _).trans ?_)
      exact List.perm_middle.symm
    · rw [hcleared.moveItemList, hcollected.moveItemList, goods_congr hcollected.later.contents_eq,
        List.append_assoc, List.flatMap_cons, List.map_append]

/-- The loop over a tile that destroys something, or does not come to its end. -/
theorem collectFrom_doomed (teleport : Teleports) (h : Kept c w.state)
    (hquiet : Quiet c (w.state.tiles n))
    {pre rest : List TileItem} (hitems : (w.state.tiles n).items.items = pre ++ rest)
    (hdoomed : ∃ i ∈ rest, doomed c (w.state.tiles n) i.item = true) :
    collectFrom c teleport n rest.length pre.length w = none ∨
      ∃ w' r, collectFrom c teleport n rest.length pre.length w = some w' ∧
        Later c [n] w.state w'.state ∧ some r ∈ w'.moveItemList ∧ w'.state.parent r = none ∧
        r < w'.state.next := by
  induction rest generalizing pre w with
  | nil =>
    obtain ⟨i, hi, -⟩ := hdoomed
    cases hi
  | cons item rest ih =>
    have hk : (w.state.tiles n).items.items[pre.length]? = some item := by
      rw [hitems, List.getElem?_append_right le_rfl, Nat.sub_self]
      rfl
    obtain ⟨w₁, out, hround, hcollected⟩ := exists_collected teleport h hk (hquiet.mark hk)
    have hquiet₁ := hcollected.quiet hk hquiet
    rw [List.length_cons, collectFrom, hk]
    dsimp only
    rw [hround, Option.bind_some]
    cases hitem : doomed c (w.state.tiles n) item.item with
    | true =>
      obtain ⟨hnone, hlt, hgoes⟩ := hcollected.lost hitem
      have hmem : some out.ref ∈ w₁.moveItemList := by
        rw [hcollected.moveItemList, goods, if_pos hgoes]
        simp
      have hgo := collectFrom_later teleport hcollected.later.kept hquiet₁
        rest.length (pre.length + 1)
      refine hgo.imp_right ?_
      rintro ⟨w', hrun, hlater, -, hsub⟩
      exact ⟨w', out.ref, hrun, hcollected.later.trans hlater, hsub hmem,
        hlater.parent_none _ hlt hnone, hlt.trans_le hlater.next_le⟩
    | false =>
      have hinstead := hcollected.instead hitem
      obtain ⟨pre₁, heq, hperm⟩ := hinstead.split_append hitems
      have hdoomed₁ : ∃ i ∈ rest, doomed c (w₁.state.tiles n) i.item = true := by
        obtain ⟨i, hi, hdoom⟩ := hdoomed
        rcases List.mem_cons.1 hi with rfl | hi
        · rw [hitem] at hdoom
          cases hdoom
        · exact ⟨i, hi, (hinstead.doomed_eq i.item).trans hdoom⟩
      have hrun := ih hcollected.later.kept hquiet₁ heq hdoomed₁
      rw [hperm.length_eq, List.length_cons] at hrun
      refine hrun.imp_right ?_
      rintro ⟨w', r, hrun, hlater, hmem, hnone, hlt⟩
      exact ⟨w', r, hrun, hcollected.later.trans hlater, hmem, hnone, hlt⟩

/-! ## All tiles -/

variable {ns : List ℕ}

/-- A tile of the rest of the list is as it was. -/
theorem Later.tiles_of_nodup {s' : Estate} (h : Later c [n] s s') (hns : (n :: ns).Nodup) :
    ∀ m ∈ ns, s'.tiles m = s.tiles m := by
  intro m hm
  refine h.tiles_eq m fun heq => ?_
  rw [List.mem_singleton.1 heq] at hm
  exact (List.nodup_cons.1 hns).1 hm

theorem collectTiles_later (teleport : Teleports) (h : Kept c w.state) (hns : ns.Nodup)
    (hquiet : ∀ n ∈ ns, Quiet c (w.state.tiles n)) :
    ns.foldlM (collectTile c teleport) w = none ∨ ∃ w',
      ns.foldlM (collectTile c teleport) w = some w' ∧ Later c ns w.state w'.state ∧
      w.moveItemList ⊆ w'.moveItemList := by
  induction ns generalizing w with
  | nil => exact .inr ⟨w, rfl, .refl h, List.Subset.refl _⟩
  | cons n ns ih =>
    rw [List.foldlM_cons]
    rcases collectFrom_later teleport h (hquiet n List.mem_cons_self)
      (w.state.tiles n).items.size 0 with hnone | ⟨w₁, hrun, hlater, -, hsub⟩
    · exact .inl (by rw [collectTile, hnone]; rfl)
    · have htiles := hlater.tiles_of_nodup hns
      have hquiet₁ : ∀ m ∈ ns, Quiet c (w₁.state.tiles m) := by
        intro m hm
        rw [htiles m hm]
        exact hquiet m (List.mem_cons_of_mem n hm)
      rw [collectTile, hrun]
      refine (ih hlater.kept (List.nodup_cons.1 hns).2 hquiet₁).imp_right ?_
      rintro ⟨w', hrun', hlater', hsub'⟩
      refine ⟨w', hrun', ?_, fun r hr => hsub' (hsub hr)⟩
      exact (hlater.mono (by simp)).trans (hlater'.mono (List.subset_cons_self n ns))

/-- The loop over the tiles that destroys nothing, with what there is instead of the items. -/
structure ClearedTiles (c : Catalogue) (ns : List ℕ) (made : ℕ → List (TileItem × TileItem))
    (w w' : Walk) : Prop where
  later : Later c ns w.state w'.state
  items_eq : ∀ n ∈ ns, (made n).map Prod.fst = (w.state.tiles n).items.items
  becomes : ∀ n ∈ ns, ∀ p ∈ made n, Becomes c p.1 p.2
  ground : ∀ n ∈ ns, (w'.state.tiles n).ground = (w.state.tiles n).ground
  items : ∀ n ∈ ns, (w'.state.tiles n).items.items.Perm ((made n).map Prod.snd)
  moveItemList : w'.moveItemList =
    w.moveItemList ++ ((ns.flatMap made).flatMap (goods c w.state)).map (some ·.ref)

theorem exists_clearedTiles (teleport : Teleports) (h : Kept c w.state) (hns : ns.Nodup)
    (hquiet : ∀ n ∈ ns, Quiet c (w.state.tiles n))
    (hsafe : ∀ n ∈ ns, ∀ i ∈ (w.state.tiles n).items.items,
      doomed c (w.state.tiles n) i.item = false) :
    ∃ w' made, ns.foldlM (collectTile c teleport) w = some w' ∧ ClearedTiles c ns made w w' := by
  induction ns generalizing w with
  | nil =>
    exact ⟨w, fun _ => [], rfl, .refl h, nofun, nofun, nofun, nofun, by simp⟩
  | cons n ns ih =>
    obtain ⟨hnot, hns'⟩ := List.nodup_cons.1 hns
    obtain ⟨w₁, pairs, hrun, hfst, hcleared⟩ := exists_cleared teleport h
      (hquiet n List.mem_cons_self) (List.nil_append _).symm (hsafe n List.mem_cons_self)
    have htiles := hcleared.later.tiles_of_nodup hns
    obtain ⟨w', made, hrun', hall⟩ := ih hcleared.later.kept hns'
      (fun m hm => by
        rw [htiles m hm]
        exact hquiet m (List.mem_cons_of_mem n hm))
      (fun m hm => by
        rw [htiles m hm]
        exact hsafe m (List.mem_cons_of_mem n hm))
    have hmade : ∀ m ∈ ns, Function.update made n pairs m = made m :=
      fun m hm => Function.update_of_ne (fun heq : m = n => hnot (heq ▸ hm)) ..
    have hself : Function.update made n pairs n = pairs := Function.update_self ..
    have htile : w'.state.tiles n = w₁.state.tiles n := hall.later.tiles_eq n hnot
    refine ⟨w', Function.update made n pairs, ?_, ?_, ?_, ?_, ?_, ?_, ?_⟩
    · rw [List.foldlM_cons, collectTile]
      exact (congrArg (Option.bind · _) hrun).trans hrun'
    · exact (hcleared.later.mono (by simp)).trans (hall.later.mono (List.subset_cons_self n ns))
    · rintro m hm
      rcases List.mem_cons.1 hm with rfl | hm
      · rw [hself, hfst]
      · rw [hmade m hm, hall.items_eq m hm, htiles m hm]
    · rintro m hm
      rcases List.mem_cons.1 hm with rfl | hm
      · rw [hself]
        exact hcleared.becomes
      · rw [hmade m hm]
        exact hall.becomes m hm
    · rintro m hm
      rcases List.mem_cons.1 hm with rfl | hm
      · rw [htile, hcleared.ground]
      · rw [hall.ground m hm, htiles m hm]
    · rintro m hm
      rcases List.mem_cons.1 hm with rfl | hm
      · rw [htile, hself]
        exact hcleared.items
      · rw [hmade m hm]
        exact hall.items m hm
    · have hflat : ns.flatMap (Function.update made n pairs) = ns.flatMap made :=
        List.flatMap_congr hmade
      rw [hall.moveItemList, hcleared.moveItemList, goods_congr hcleared.later.contents_eq,
        List.append_assoc, List.flatMap_cons, hself, hflat, List.flatMap_append, List.map_append]

/-- The loop over the tiles that destroys something leaves a lost item on the list. -/
theorem collectTiles_doomed (teleport : Teleports) (h : Kept c w.state) (hns : ns.Nodup)
    (hquiet : ∀ n ∈ ns, Quiet c (w.state.tiles n))
    (hdoomed : ∃ n ∈ ns, ∃ i ∈ (w.state.tiles n).items.items,
      doomed c (w.state.tiles n) i.item = true) :
    ns.foldlM (collectTile c teleport) w = none ∨ ∃ w' r,
      ns.foldlM (collectTile c teleport) w = some w' ∧ some r ∈ w'.moveItemList ∧
      w'.state.parent r = none := by
  induction ns generalizing w with
  | nil =>
    obtain ⟨n, hn, -⟩ := hdoomed
    cases hn
  | cons n ns ih =>
    have hns' := (List.nodup_cons.1 hns).2
    have hquiet₁ : ∀ {s' : Estate}, Later c [n] w.state s' → ∀ m ∈ ns, Quiet c (s'.tiles m) := by
      intro s' hlater m hm
      rw [hlater.tiles_of_nodup hns m hm]
      exact hquiet m (List.mem_cons_of_mem n hm)
    rw [List.foldlM_cons, collectTile]
    by_cases hhere : ∃ i ∈ (w.state.tiles n).items.items, doomed c (w.state.tiles n) i.item = true
    · rcases collectFrom_doomed teleport h (hquiet n List.mem_cons_self)
        (List.nil_append _).symm hhere with hnone | ⟨w₁, r, hrun, hlater, hmem, hlost, hlt⟩
      · exact .inl (congrArg (Option.bind · _) hnone)
      · rcases collectTiles_later teleport hlater.kept hns' (hquiet₁ hlater) with
          hnone | ⟨w', hrun', hlater', hsub⟩
        · exact .inl ((congrArg (Option.bind · _) hrun).trans hnone)
        · exact .inr ⟨w', r, (congrArg (Option.bind · _) hrun).trans hrun', hsub hmem,
            hlater'.parent_none r hlt hlost⟩
    · obtain ⟨w₁, pairs, hrun, hfst, hcleared⟩ := exists_cleared teleport h
        (hquiet n List.mem_cons_self) (List.nil_append _).symm
        fun i hi => by simpa using fun hdoom => hhere ⟨i, hi, hdoom⟩
      have hdoomed₁ : ∃ m ∈ ns, ∃ i ∈ (w₁.state.tiles m).items.items,
          doomed c (w₁.state.tiles m) i.item = true := by
        obtain ⟨m, hm, hi⟩ := hdoomed
        rcases List.mem_cons.1 hm with rfl | hm
        · exact absurd hi hhere
        · refine ⟨m, hm, ?_⟩
          rw [hcleared.later.tiles_of_nodup hns m hm]
          exact hi
      refine (ih hcleared.later.kept hns' (hquiet₁ hcleared.later) hdoomed₁).imp ?_ ?_
      · exact fun hnone => (congrArg (Option.bind · _) hrun).trans hnone
      · rintro ⟨w', r, hrun', hlost⟩
        exact ⟨w', r, (congrArg (Option.bind · _) hrun).trans hrun', hlost⟩

end OTServBR.Depot
