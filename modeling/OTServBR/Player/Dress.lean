import OTServBR.Item.Equals
import OTServBR.Player.Slots

/-! # What is worn

Whatever is moved, in a slot lies what fits there, and the hands hold what goes
together. No move makes pieces of an item or loses any.
-/

namespace OTServBR.Slots

open Equipment (Slot)

/-! ## Objects -/

section Objects

variable {config : Config} {s : State} {item i j : TileItem} {slot : Slot}
  {f : TileItem → Option TileItem}

theorem slotAt_constSlot (slot : Slot) : slotAt (constSlot slot) = some slot := by
  cases slot <;> rfl

theorem constSlot_of_slotAt {index : ℤ} (h : slotAt index = some slot) :
    constSlot slot = index := by
  unfold slotAt at h
  simpa using List.find?_some h

/-- An item lies in a slot or in the other cylinder. -/
def State.Has (s : State) (item : TileItem) : Prop :=
  (∃ slot, s.inventory slot = some item) ∨ item ∈ s.outside

/-- No object is in two places. -/
structure Distinct (s : State) : Prop where
  slot_eq : ∀ {slot slot' i j}, s.inventory slot = some i → s.inventory slot' = some j →
    i.ref = j.ref → slot = slot'
  outside : (s.outside.map (·.ref)).Nodup
  ne : ∀ {slot i j}, s.inventory slot = some i → j ∈ s.outside → i.ref ≠ j.ref

theorem Distinct.eq_of_outside (h : Distinct s) (hi : i ∈ s.outside) (hj : j ∈ s.outside)
    (href : i.ref = j.ref) : i = j :=
  List.inj_on_of_nodup_map h.outside hi hj href

theorem has_of_mem_held {side : Side} (h : item ∈ s.held side) : s.Has item := by
  cases side with
  | player =>
    obtain ⟨slot, -, hslot⟩ := List.mem_filterMap.1 h
    exact .inl ⟨slot, hslot⟩
  | outside => exact .inr h

theorem inventory_alter {ref : ℕ} : (s.alter ref f).inventory slot =
    (s.inventory slot).bind fun i => if i.ref = ref then f i else some i := rfl

/-- An object in a slot afterwards is one of before. -/
theorem inventory_alter_eq_some {ref : ℕ} (h : (s.alter ref f).inventory slot = some j) :
    ∃ i, s.inventory slot = some i ∧ (i.ref ≠ ref ∧ i = j ∨ i.ref = ref ∧ f i = some j) := by
  obtain ⟨i, hi, hj⟩ := Option.bind_eq_some_iff.1 h
  refine ⟨i, hi, ?_⟩
  split at hj
  · next href => exact .inr ⟨href, hj⟩
  · next href => exact .inl ⟨href, Option.some.inj hj⟩

theorem mem_outside_alter {ref : ℕ} (h : j ∈ (s.alter ref f).outside) :
    ∃ i ∈ s.outside, (i.ref ≠ ref ∧ i = j ∨ i.ref = ref ∧ f i = some j) := by
  obtain ⟨i, hi, hj⟩ := List.mem_filterMap.1 h
  refine ⟨i, hi, ?_⟩
  split at hj
  · next href => exact .inr ⟨href, hj⟩
  · next href => exact .inl ⟨href, Option.some.inj hj⟩

/-- An object of afterwards is one of before. -/
theorem has_alter {ref : ℕ} (h : (s.alter ref f).Has j) :
    ∃ i, s.Has i ∧ (i.ref ≠ ref ∧ i = j ∨ i.ref = ref ∧ f i = some j) := by
  rcases h with ⟨slot, hslot⟩ | hout
  · obtain ⟨i, hi, hj⟩ := inventory_alter_eq_some hslot
    exact ⟨i, .inl ⟨slot, hi⟩, hj⟩
  · obtain ⟨i, hi, hj⟩ := mem_outside_alter hout
    exact ⟨i, .inr hi, hj⟩

theorem ref_eq_of_alter {ref : ℕ} (hf : ∀ i j, f i = some j → j.ref = i.ref)
    (h : i.ref ≠ ref ∧ i = j ∨ i.ref = ref ∧ f i = some j) : j.ref = i.ref := by
  rcases h with ⟨-, rfl⟩ | ⟨-, hj⟩
  · rfl
  · exact hf i j hj

theorem Distinct.alter {ref : ℕ} (h : Distinct s) (hf : ∀ i j, f i = some j → j.ref = i.ref) :
    Distinct (s.alter ref f) where
  slot_eq hi hj href := by
    obtain ⟨i', hi', hi⟩ := inventory_alter_eq_some hi
    obtain ⟨j', hj', hj⟩ := inventory_alter_eq_some hj
    exact h.slot_eq hi' hj' (by rw [← ref_eq_of_alter hf hi, href, ref_eq_of_alter hf hj])
  outside := by
    have hsub : ((s.alter ref f).outside.map (·.ref)).Sublist (s.outside.map (·.ref)) := by
      have hrefs : (s.alter ref f).outside.map (·.ref) = s.outside.filterMap fun i =>
          ((if i.ref = ref then f i else some i).map (·.ref)) := List.map_filterMap ..
      rw [hrefs, ← List.filterMap_eq_map]
      induction s.outside with
      | nil => exact List.Sublist.refl _
      | cons i l ih =>
        rw [List.filterMap_cons, List.filterMap_cons]
        cases hi : (if i.ref = ref then f i else some i) with
        | none => exact ih.cons _
        | some j =>
          have href : j.ref = i.ref := by
            split at hi
            · exact hf i j hi
            · rw [Option.some.inj hi]
          simpa [href] using ih
    exact h.outside.sublist hsub
  ne hi hj := by
    obtain ⟨i', hi', hi⟩ := inventory_alter_eq_some hi
    obtain ⟨j', hj', hj⟩ := mem_outside_alter hj
    rw [ref_eq_of_alter hf hi, ref_eq_of_alter hf hj]
    exact h.ne hi' hj'

/-- Something new, or something that is nowhere now, is put down. -/
theorem Distinct.addThing {side : Side} {index : ℤ} (h : Distinct s)
    (hnew : ∀ i, s.Has i → i.ref ≠ item.ref) : Distinct (s.addThing side index item) := by
  cases side with
  | player =>
    rw [State.addThing]
    cases hslot : slotAt index with
    | none => exact h
    | some slot =>
      have hcase : ∀ {t i}, Function.update s.inventory slot (some item) t = some i →
          t = slot ∧ i = item ∨ t ≠ slot ∧ s.inventory t = some i := by
        intro t i hi
        by_cases ht : t = slot
        · subst ht
          rw [Function.update_self] at hi
          exact .inl ⟨rfl, (Option.some.inj hi).symm⟩
        · rw [Function.update_of_ne ht] at hi
          exact .inr ⟨ht, hi⟩
      refine ⟨fun hi hj href => ?_, h.outside, fun hi hj => ?_⟩
      · rcases hcase hi with ⟨rfl, rfl⟩ | ⟨-, hi'⟩ <;> rcases hcase hj with ⟨rfl, rfl⟩ | ⟨-, hj'⟩
        · rfl
        · exact absurd href.symm (hnew _ (.inl ⟨_, hj'⟩))
        · exact absurd href (hnew _ (.inl ⟨_, hi'⟩))
        · exact h.slot_eq hi' hj' href
      · rcases hcase hi with ⟨-, rfl⟩ | ⟨-, hi'⟩
        · exact (hnew _ (.inr hj)).symm
        · exact h.ne hi' hj
  | outside =>
    refine ⟨h.slot_eq, ?_, fun hi hj => ?_⟩
    · refine List.nodup_cons.2 ⟨fun hmem => ?_, h.outside⟩
      obtain ⟨i, hi, href⟩ := List.mem_map.1 hmem
      exact hnew i (.inr hi) href
    · rcases List.mem_cons.1 hj with rfl | hj
      · exact hnew _ (.inl ⟨_, hi⟩)
      · exact h.ne hi hj

end Objects

/-! ## Weights -/

section Weigh

variable {s : State} {item : TileItem} {f : TileItem → Option TileItem} (w : TileItem → ℕ)

/-- The sum of the weights of all items. -/
def State.weigh (s : State) : ℕ := ∑ slot, (s.inventory slot).elim 0 w + (s.outside.map w).sum

theorem sum_update (inventory : Inventory) (slot : Slot) (x : Option TileItem) :
    ∑ t, (Function.update inventory slot x t).elim 0 w + (inventory slot).elim 0 w =
      ∑ t, (inventory t).elim 0 w + x.elim 0 w := by
  rw [← Finset.add_sum_erase _ _ (Finset.mem_univ slot),
    ← Finset.add_sum_erase _ (fun t => (inventory t).elim 0 w) (Finset.mem_univ slot)]
  have hrest : ∀ t ∈ Finset.univ.erase slot, (Function.update inventory slot x t).elim 0 w =
      (inventory t).elim 0 w := fun t ht => by
    rw [Function.update_of_ne (Finset.ne_of_mem_erase ht)]
  rw [Finset.sum_congr rfl hrest, Function.update_self]
  ring

theorem filterMap_of_ne {l : List TileItem} {ref : ℕ} (hne : ∀ i ∈ l, i.ref ≠ ref) :
    l.filterMap (fun i => if i.ref = ref then f i else some i) = l := by
  rw [List.filterMap_congr fun i hi => if_neg (hne i hi)]
  exact List.filterMap_some

/-- Only one item of a list has an address. -/
theorem sum_filterMap {l : List TileItem} (hnodup : (l.map (·.ref)).Nodup) (hmem : item ∈ l) :
    ((l.filterMap fun i => if i.ref = item.ref then f i else some i).map w).sum + w item =
      (l.map w).sum + (f item).elim 0 w := by
  induction l with
  | nil => cases hmem
  | cons i l ih =>
    obtain ⟨hnot, hnodup⟩ := List.nodup_cons.1 hnodup
    by_cases href : i.ref = item.ref
    · obtain rfl : item = i := by
        rcases List.mem_cons.1 hmem with rfl | hmem
        · rfl
        · exact absurd (List.mem_map.2 ⟨item, hmem, href.symm⟩) hnot
      have hrest : l.filterMap (fun i => if i.ref = item.ref then f i else some i) = l :=
        filterMap_of_ne fun j hj href => hnot (List.mem_map.2 ⟨j, hj, href⟩)
      rw [List.filterMap_cons, if_pos rfl, hrest]
      cases f item with
      | none => simp [add_comm]
      | some j => simp; ring
    · have hmem : item ∈ l := by
        rcases List.mem_cons.1 hmem with rfl | hmem
        · exact absurd rfl href
        · exact hmem
      rw [List.filterMap_cons, if_neg href]
      simp only [List.map_cons, List.sum_cons]
      rw [add_assoc, ih hnodup hmem, add_assoc]

/-- What happens to an item is all that happens. -/
theorem weigh_alter (h : Distinct s) (hhas : s.Has item) :
    (s.alter item.ref f).weigh w + w item = s.weigh w + (f item).elim 0 w := by
  rcases hhas with ⟨slot, hslot⟩ | hout
  · have hinv : (s.alter item.ref f).inventory = Function.update s.inventory slot (f item) := by
      funext t
      by_cases ht : t = slot
      · subst ht
        rw [Function.update_self, inventory_alter, hslot, Option.bind_some, if_pos rfl]
      · rw [Function.update_of_ne ht, inventory_alter]
        cases hi : s.inventory t with
        | none => rfl
        | some i => exact if_neg fun href => ht (h.slot_eq hi hslot href)
    have hrest : (s.alter item.ref f).outside = s.outside :=
      filterMap_of_ne fun j hj => (h.ne hslot hj).symm
    have hsum := sum_update w s.inventory slot (f item)
    rw [hslot] at hsum
    simp only [State.weigh, hinv, hrest, Option.elim_some] at hsum ⊢
    omega
  · have hinv : (s.alter item.ref f).inventory = s.inventory := by
      funext t
      rw [inventory_alter]
      cases hi : s.inventory t with
      | none => rfl
      | some i => exact if_neg (h.ne hi hout)
    have hsum := sum_filterMap (f := f) w h.outside hout
    have hrest : (s.alter item.ref f).outside =
        s.outside.filterMap fun i => if i.ref = item.ref then f i else some i := rfl
    simp only [State.weigh, hinv, hrest]
    omega

theorem weigh_addThing_outside {index : ℤ} :
    (s.addThing .outside index item).weigh w = s.weigh w + w item := by
  simp only [State.addThing, State.weigh, List.map_cons, List.sum_cons]
  omega

/-- An item that is put on must not lie on another one. -/
theorem weigh_addThing_player {index : ℤ} {slot : Slot} (hslot : slotAt index = some slot)
    (hempty : s.inventory slot = none) :
    (s.addThing .player index item).weigh w = s.weigh w + w item := by
  have hsum := sum_update w s.inventory slot (some item)
  rw [hempty] at hsum
  simp only [State.addThing, hslot, State.weigh, Option.elim_none, Option.elim_some] at hsum ⊢
  omega

end Weigh

/-! ## The rules -/

/-- A type whose items lie on stacks. -/
structure Stack (it : ItemType) (itemId : UInt16) : Prop where
  id : it.id = itemId
  ne_zero : itemId ≠ 0
  group : it.group ≠ .deprecated
  plain : Item.plainId itemId itemId = itemId
  solid : (it.isFluidContainer || it.isSplash) = false
  oneHand : hasBit it.slotPosition SlotP.twoHand = false

/-- The item table: whatever is worn elsewhere also goes into a hand, and what needs both hands does
not lie on stacks. -/
structure Wardrobe extends Config where
  hand : ∀ id, hasBit (types.getItemType id).slotPosition SlotP.right = true ∨
    hasBit (types.getItemType id).slotPosition SlotP.left = true
  stack : ∀ id, (types.getItemType id).stackable = true → Stack (types.getItemType id) id

def IsWeapon (type : WeaponType) : Prop := type ≠ .none ∧ type ≠ .shield ∧ type ≠ .ammo

instance (type : WeaponType) : Decidable (IsWeapon type) := inferInstanceAs (Decidable (_ ∧ _))

/-- An item of a type may lie in a slot. -/
def Fits (config : Config) (slot : Slot) (it : ItemType) : Prop :=
  match slot with
  | .right => hasBit it.slotPosition SlotP.right = true ∧
      (config.classic = false → it.weaponType = .shield)
  | .left => hasBit it.slotPosition SlotP.left = true ∧
      (config.classic = false → it.weaponType ≠ .none ∧ it.weaponType ≠ .shield)
  | .ammo => hasBit it.slotPosition SlotP.ammo = true ∨ config.classic = true
  | .storeInbox => True
  | slot => hasBit it.slotPosition (slotp slot) = true

/-- What the right hand holds goes with what the left hand holds. -/
structure Together (config : Config) (right left : ItemType) : Prop where
  left_oneHand : hasBit left.slotPosition SlotP.twoHand = false
  right_oneHand : config.classic = true → hasBit right.slotPosition SlotP.twoHand = false
  shields : ¬ (right.weaponType = .shield ∧ left.weaponType = .shield)
  weapons : ¬ (IsWeapon right.weaponType ∧ IsWeapon left.weaponType)

structure Dressed (config : Config) (inventory : Inventory) : Prop where
  fits : ∀ slot i, inventory slot = some i → Fits config slot (i.item.getType config.types)
  hands : ∀ right left, inventory .right = some right → inventory .left = some left →
    Together config (right.item.getType config.types) (left.item.getType config.types)

section Rules

variable {config : Config} {w : Wardrobe} {inventory inventory' : Inventory}
  {item i c : TileItem} {count : ℕ} {index : ℤ} {slot : Slot}

theorem hasBit_or {a b bit : UInt16} (h : hasBit (a ||| b) bit = false) : hasBit a bit = false := by
  simp only [hasBit, bne_eq_false_iff_eq] at h ⊢
  apply UInt16.eq_of_toBitVec_eq
  ext n hn
  have hbit : ((a ||| b) &&& bit).toBitVec[n] = (0 : UInt16).toBitVec[n] := by simp only [h]
  simp only [UInt16.toBitVec_and, UInt16.toBitVec_or, BitVec.getElem_and, BitVec.getElem_or,
    UInt16.toBitVec_zero, BitVec.getElem_zero] at hbit ⊢
  grind

theorem refusal_ne_noError {slotPosition : UInt16}
    (h : hasBit slotPosition SlotP.right = true ∨ hasBit slotPosition SlotP.left = true) :
    refusal config slotPosition ≠ .noError := by
  unfold refusal
  split_ifs with hbody hboth hhand hclassic
  all_goals simp_all

/-- The other hand is free, or what it holds goes with the item, or it holds the item itself. -/
theorem queryHand_eq_noError {other : Option TileItem}
    (h : queryHand config item count other = .noError) : ∀ i ∈ other,
      (hasBit (getSlotPosition config.types item) SlotP.twoHand = false ∧
        hasBit (getSlotPosition config.types i) SlotP.twoHand = false ∧
        ¬ (getWeaponType config.types item = .shield ∧ getWeaponType config.types i = .shield) ∧
        ¬ (IsWeapon (getWeaponType config.types item) ∧
          IsWeapon (getWeaponType config.types i))) ∨
      i.ref = item.ref ∧ (hasBit (getSlotPosition config.types item) SlotP.twoHand = true ∨
        count = getItemCount item) := by
  rintro i rfl
  unfold queryHand at h
  dsimp only at h
  split_ifs at h with htwo hfree hother hsame hshields hweapons
  · exact .inr ⟨by simpa using hfree, .inl htwo⟩
  · simp only [Bool.and_eq_true, beq_iff_eq] at hsame
    exact .inr ⟨hsame.1.symm, .inr hsame.2⟩
  · refine .inl ⟨by simpa using htwo, by simpa using hother, by simpa [and_comm] using hshields, ?_⟩
    rintro ⟨⟨hnone, hshield, hammo⟩, hnone', hshield', hammo'⟩
    simp_all

/-- The item is the one that the other hand holds, and all of it leaves that hand. -/
def Leaves (config : Config) (item : TileItem) (count : ℕ) (i : TileItem) : Prop :=
  i.ref = item.ref ∧ (hasBit (getSlotPosition config.types item) SlotP.twoHand = true ∨
    count = getItemCount item)

/-- What a slot has agreed to. -/
structure Agreed (config : Config) (inventory : Inventory) (item : TileItem) (count : ℕ)
    (slot : Slot) : Prop where
  fits : Fits config slot (item.item.getType config.types)
  right : slot = .right → ∀ i ∈ inventory .left, Leaves config item count i ∨
    Together config (item.item.getType config.types) (i.item.getType config.types)
  left : slot = .left → ∀ i ∈ inventory .right, Leaves config item count i ∨
    Together config (i.item.getType config.types) (item.item.getType config.types)

theorem agreed_right (h : Dressed config inventory)
    (hbit : hasBit (getSlotPosition config.types item) SlotP.right = true)
    (hq : (if !config.classic then queryRight config item (inventory .left)
      else queryHand config item count (inventory .left)) = .noError) :
    Agreed config inventory item count .right := by
  cases hclassic : config.classic with
  | true =>
    rw [hclassic] at hq
    refine ⟨⟨hbit, by simp [hclassic]⟩, fun _ i hi => ?_, nofun⟩
    rcases queryHand_eq_noError hq i hi with ⟨hone, hone', hshields, hweapons⟩ | hsame
    · exact .inr ⟨hone', fun _ => hone, hshields, hweapons⟩
    · exact .inl hsame
  | false =>
    rw [hclassic] at hq
    simp only [Bool.not_false, if_true] at hq
    unfold queryRight at hq
    split_ifs at hq with hshield
    have hshield : getWeaponType config.types item = .shield := by simpa using hshield
    refine ⟨⟨hbit, fun _ => hshield⟩, fun _ i hi => .inr ?_, nofun⟩
    have hleft := (h.fits .left i hi).2 hclassic
    rw [Option.mem_def.1 hi] at hq
    dsimp only at hq
    split_ifs at hq with hfree
    have hone : hasBit (getSlotPosition config.types i) SlotP.twoHand = false :=
      hasBit_or (by simpa using hfree)
    refine ⟨hone, by simp [hclassic], fun hboth => hleft.2 hboth.2, ?_⟩
    exact fun hboth => hboth.1.2.1 hshield

theorem agreed_left (h : Dressed config inventory)
    (hbit : hasBit (getSlotPosition config.types item) SlotP.left = true)
    (hq : (if !config.classic then queryLeft config item (inventory .right)
      else queryHand config item count (inventory .right)) = .noError) :
    Agreed config inventory item count .left := by
  cases hclassic : config.classic with
  | true =>
    rw [hclassic] at hq
    refine ⟨⟨hbit, by simp [hclassic]⟩, nofun, fun _ i hi => ?_⟩
    rcases queryHand_eq_noError hq i hi with ⟨hone, hone', hshields, hweapons⟩ | hsame
    · exact .inr ⟨hone, fun _ => hone', fun hboth => hshields hboth.symm,
        fun hboth => hweapons hboth.symm⟩
    · exact .inl hsame
  | false =>
    rw [hclassic] at hq
    simp only [Bool.not_false, if_true] at hq
    unfold queryLeft at hq
    dsimp only at hq
    split_ifs at hq with htype hfree
    simp only [Bool.or_eq_true, beq_iff_eq, not_or] at htype
    refine ⟨⟨hbit, fun _ => htype⟩, nofun, fun _ i hi => .inr ?_⟩
    have hright := (h.fits .right i hi).2 hclassic
    rw [Option.mem_def.1 hi] at hfree
    have hone : hasBit (getSlotPosition config.types item) SlotP.twoHand = false := by
      simpa using hfree
    refine ⟨hone, by simp [hclassic], fun hboth => htype.2 hboth.2, ?_⟩
    exact fun hboth => hboth.1.2.1 hright

/-- A slot agrees only to what fits in it. -/
theorem agreed_of_querySlot (h : Dressed w.toConfig inventory)
    (hq : querySlot w.toConfig item count inventory index = .noError) :
    ∃ slot, slotAt index = some slot ∧ Agreed w.toConfig inventory item count slot := by
  have hrefusal : refusal w.toConfig (getSlotPosition w.types item) ≠ .noError :=
    refusal_ne_noError (w.hand item.item.id)
  unfold querySlot at hq
  dsimp only at hq
  cases hslot : slotAt index with
  | none =>
    rw [hslot] at hq
    dsimp only at hq
    split_ifs at hq
  | some slot =>
    refine ⟨slot, rfl, ?_⟩
    rw [hslot] at hq
    cases slot <;> dsimp only at hq
    case right =>
      split at hq
      · next hbit => exact agreed_right h hbit hq
      · exact absurd hq hrefusal
    case left =>
      split at hq
      · next hbit => exact agreed_left h hbit hq
      · exact absurd hq hrefusal
    case ammo =>
      split_ifs at hq with hbit
      · exact ⟨(Bool.or_eq_true _ _).mp hbit, nofun, nofun⟩
      · exact absurd hq hrefusal
    case storeInbox => cases hq
    all_goals
      split_ifs at hq with hbit
      · exact ⟨hbit, nofun, nofun⟩
      · exact absurd hq hrefusal

/-- What is worn afterwards was worn before in the same slot, perhaps less of it. -/
def Keeps (inventory' inventory : Inventory) : Prop :=
  ∀ slot i, inventory' slot = some i → ∃ j, inventory slot = some j ∧ i.ref = j.ref ∧
    i.item.id = j.item.id

theorem getType_congr {types : Items} (h : i.item.id = c.item.id) :
    i.item.getType types = c.item.getType types := by
  unfold Item.getType
  rw [h]

theorem Dressed.keep (h : Dressed config inventory) (hkeep : Keeps inventory' inventory) :
    Dressed config inventory' where
  fits slot i hi := by
    obtain ⟨j, hj, -, hid⟩ := hkeep slot i hi
    rw [getType_congr hid]
    exact h.fits slot j hj
  hands right left hright hleft := by
    obtain ⟨right', hright, -, hid⟩ := hkeep _ right hright
    obtain ⟨left', hleft, -, hid'⟩ := hkeep _ left hleft
    rw [getType_congr hid, getType_congr hid']
    exact h.hands _ _ hright hleft

/-- Something is put on to which the slot had agreed, and it is not in the other hand anymore unless
it is part of a stack. -/
theorem Dressed.put (h : Dressed w.toConfig inventory) (hkeep : Keeps inventory' inventory)
    (hagreed : Agreed w.toConfig inventory item count slot) (hid : c.item.id = item.item.id)
    (hgone : (∀ slot i, inventory' slot = some i → i.ref ≠ item.ref) ∨
      isStackable w.types item = true ∧ count ≠ getItemCount item) :
    Dressed w.toConfig (Function.update inventory' slot (some c)) := by
  have hkept := h.keep hkeep
  -- the other hand does not hold the item itself
  have hleaves : ∀ {t i j}, inventory' t = some i → i.ref = j.ref →
      ¬ Leaves w.toConfig item count j := by
    rintro t i j hi href ⟨hsame, hwhole⟩
    rcases hgone with hgone | ⟨hstack, hcount⟩
    · exact hgone t i hi (href.trans hsame)
    · rcases hwhole with htwo | heq
      · rw [getSlotPosition, Item.getType, (w.stack _ hstack).oneHand] at htwo
        cases htwo
      · exact hcount heq
  refine ⟨fun t i hi => ?_, fun right left hright hleft => ?_⟩
  · by_cases ht : t = slot
    · subst ht
      obtain rfl : c = i := by simpa using hi
      rw [getType_congr hid]
      exact hagreed.fits
    · rw [Function.update_of_ne ht] at hi
      exact hkept.fits t i hi
  · by_cases hr : slot = .right
    · subst hr
      obtain rfl : c = right := by simpa using hright
      rw [Function.update_of_ne (by decide)] at hleft
      obtain ⟨left', hleft', href, hid'⟩ := hkeep _ _ hleft
      rw [getType_congr hid, getType_congr hid']
      exact (hagreed.right rfl left' hleft').resolve_left (hleaves hleft href)
    · rw [Function.update_of_ne (Ne.symm hr)] at hright
      by_cases hl : slot = .left
      · subst hl
        obtain rfl : c = left := by simpa using hleft
        obtain ⟨right', hright', href, hid'⟩ := hkeep _ _ hright
        rw [getType_congr hid, getType_congr hid']
        exact (hagreed.left rfl right' hright').resolve_left (hleaves hright href)
      · rw [Function.update_of_ne (Ne.symm hl)] at hleft
        exact hkept.hands right left hright hleft

end Rules

/-! ## Pieces -/

/-- How many pieces an item is. -/
def size (types : Items) (item : TileItem) : ℕ :=
  if isStackable types item then getItemCount item else 1

/-- The pieces of one kind. -/
def pieces (types : Items) (id : UInt16) (item : TileItem) : ℕ :=
  if item.item.id = id then size types item else 0

/-- What holds between two moves. No stack is larger than the game allows. -/
structure Orderly (w : Wardrobe) (s : State) : Prop where
  distinct : Distinct s
  dressed : Dressed w.toConfig s.inventory
  limited : ∀ i, s.Has i → isStackable w.types i = true → getItemCount i ≤ 100

section Pieces

variable {w : Wardrobe} {s : State} {item i j t : TileItem} {m : ℕ} {ref : ℕ} {id : UInt16}
  {f : TileItem → Option TileItem}

theorem Distinct.eq_of_has (h : Distinct s) (hi : s.Has i) (hj : s.Has j) (href : i.ref = j.ref) :
    i = j := by
  rcases hi with ⟨slot, hi⟩ | hi <;> rcases hj with ⟨slot', hj⟩ | hj
  · obtain rfl := h.slot_eq hi hj href
    exact Option.some.inj (hi.symm.trans hj)
  · exact absurd href (h.ne hi hj)
  · exact absurd href.symm (h.ne hj hi)
  · exact h.eq_of_outside hi hj href

theorem has_alter_of_ne (hi : s.Has i) (hne : i.ref ≠ ref) : (s.alter ref f).Has i := by
  rcases hi with ⟨slot, hi⟩ | hi
  · exact .inl ⟨slot, by rw [inventory_alter, hi, Option.bind_some, if_neg hne]⟩
  · exact .inr (List.mem_filterMap.2 ⟨i, hi, if_neg hne⟩)

theorem Orderly.alter (h : Orderly w s) (href : ∀ i j, f i = some j → j.ref = i.ref)
    (hf : ∀ i j, s.Has i → i.ref = ref → f i = some j → j.item.id = i.item.id ∧
      (isStackable w.types j = true → getItemCount j ≤ 100)) : Orderly w (s.alter ref f) where
  distinct := h.distinct.alter href
  dressed := h.dressed.keep fun slot i hi => by
    obtain ⟨j, hj, ⟨-, rfl⟩ | ⟨hat, hji⟩⟩ := inventory_alter_eq_some hi
    · exact ⟨j, hj, rfl, rfl⟩
    · exact ⟨j, hj, href j i hji, (hf j i (.inl ⟨slot, hj⟩) hat hji).1⟩
  limited i hi hstack := by
    obtain ⟨j, hj, ⟨-, rfl⟩ | ⟨hat, hji⟩⟩ := has_alter hi
    · exact h.limited j hj hstack
    · exact (hf j i hj hat hji).2 hstack

theorem getItemCount_setItemCount {n : ℕ} (c : Item) (hn : n < 256) :
    getItemCount ⟨ref, c.setItemCount n⟩ = n := by
  change (UInt8.ofNat n).toNat = n
  rw [UInt8.toNat_ofNat']
  exact Nat.mod_eq_of_lt hn

theorem isStackable_congr (hid : i.item.id = j.item.id) :
    isStackable w.types i = isStackable w.types j := by
  unfold isStackable Item.isStackable
  rw [getType_congr hid]

theorem size_of_stackable (h : isStackable w.types item = true) :
    size w.types item = getItemCount item := if_pos h

theorem size_of_not_stackable (h : isStackable w.types item ≠ true) : size w.types item = 1 :=
  if_neg h

theorem getItemCount_lt (item : TileItem) : getItemCount item < 256 :=
  UInt8.toNat_lt item.item.count

/-! ### Taking away -/

theorem Orderly.removeThing (h : Orderly w s) (hhas : s.Has item) :
    Orderly w (s.removeThing w.toConfig item m) := by
  refine h.alter (fun i j hij => ?_) fun i j hi href hij => ?_
  · split at hij
    · rw [← Option.some.inj hij]
    · cases hij
  · obtain rfl := h.distinct.eq_of_has hi hhas href
    split at hij
    · next hpart =>
      obtain rfl := Option.some.inj hij
      refine ⟨rfl, fun _ => ?_⟩
      rw [getItemCount_setItemCount _ (by have := getItemCount_lt i; omega)]
      have hlimit := h.limited i hi hpart.1
      omega
    · cases hij

/-- An item that is taken away as a whole is nowhere. -/
theorem ref_ne_of_removeThing (hwhole : ¬ (isStackable w.types item = true ∧ m ≠ getItemCount item))
    (hi : (s.removeThing w.toConfig item m).Has i) : i.ref ≠ item.ref := by
  obtain ⟨j, -, ⟨href, rfl⟩ | ⟨-, hji⟩⟩ := has_alter hi
  · exact href
  · rw [if_neg hwhole] at hji
    cases hji

theorem ref_of_removeThing (hi : (s.removeThing w.toConfig item m).Has i) :
    ∃ j, s.Has j ∧ i.ref = j.ref := by
  obtain ⟨j, hj, ⟨-, rfl⟩ | ⟨-, hji⟩⟩ := has_alter hi
  · exact ⟨j, hj, rfl⟩
  · split at hji
    · exact ⟨j, hj, by rw [← Option.some.inj hji]⟩
    · cases hji

/-- How many pieces leave with the item. -/
def taken (types : Items) (item : TileItem) (m : ℕ) : ℕ := if isStackable types item then m else 1

theorem weigh_removeThing (id : UInt16) (h : Orderly w s) (hhas : s.Has item)
    (hle : isStackable w.types item = true → m ≤ getItemCount item) :
    (s.removeThing w.toConfig item m).weigh (pieces w.types id) +
      (if item.item.id = id then taken w.types item m else 0) =
      s.weigh (pieces w.types id) := by
  have hsum := weigh_alter (pieces w.types id) (f := fun i =>
    if isStackable w.types item ∧ m ≠ getItemCount item then
      some { i with item := i.item.setItemCount (getItemCount item - m) }
    else none) h.distinct hhas
  change (s.removeThing w.toConfig item m).weigh (pieces w.types id) + _ = _ at hsum
  by_cases hstack : isStackable w.types item = true
  · have hle := hle hstack
    by_cases hm : m = getItemCount item
    · rw [if_neg (by simp [hm]), Option.elim_none] at hsum
      simp only [pieces, size_of_stackable hstack, taken, if_pos hstack, hm] at hsum ⊢
      exact hsum
    · rw [if_pos ⟨hstack, hm⟩, Option.elim_some] at hsum
      have hcount : getItemCount ⟨item.ref, item.item.setItemCount (getItemCount item - m)⟩ =
          getItemCount item - m :=
        getItemCount_setItemCount _ (by have := getItemCount_lt item; omega)
      have hpart : pieces w.types id ⟨item.ref, item.item.setItemCount (getItemCount item - m)⟩ =
          if item.item.id = id then getItemCount item - m else 0 := by
        have hsize : size w.types ⟨item.ref, item.item.setItemCount (getItemCount item - m)⟩ =
            getItemCount item - m := (if_pos hstack).trans hcount
        unfold pieces
        rw [hsize]
        rfl
      rw [hpart] at hsum
      simp only [pieces, size_of_stackable hstack, taken, if_pos hstack] at hsum ⊢
      split_ifs at hsum ⊢ <;> omega
  · rw [if_neg (fun hpart => hstack hpart.1), Option.elim_none] at hsum
    simp only [pieces, size_of_not_stackable hstack, taken, if_neg hstack] at hsum ⊢
    exact hsum

/-! ### Adding -/

theorem id_clone {i c : Item} (hstack : Stack (w.types.getItemType i.id) i.id)
    (h : i.clone w.types = some c) : c.id = i.id := by
  obtain ⟨created, hcreated, hc⟩ := Item.clone_eq h
  have hid : created.id = i.id := by
    unfold Item.createItem at hcreated
    simp only [hstack.id, hstack.plain] at hcreated
    split_ifs at hcreated <;> rw [← Option.some.inj hcreated, Item.id_construct]
  rcases hc with ⟨-, rfl⟩ | ⟨a, -, rfl⟩
  · exact hid
  · split_ifs
    · exact hid
    · exact hid

theorem getItemCount_updateThing (hstack : isStackable w.types t = true) {n : ℕ} (hn : n ≤ 100) :
    getItemCount (⟨t.ref, (t.item.setID w.types t.item.id).setSubType w.types
      (UInt16.ofNat n)⟩ : TileItem) = n := by
  have hsolid := (w.stack _ hstack).solid
  have hsub : (t.item.setID w.types t.item.id).setSubType w.types (UInt16.ofNat n) =
      (t.item.setID w.types t.item.id).setItemCount (UInt16.ofNat n).toNat := by
    unfold Item.setSubType
    simp only [Item.getType, Item.id_setID]
    rw [if_neg (by simpa using hsolid)]
    exact if_pos hstack
  rw [hsub, UInt16.toNat_ofNat_of_lt' (hn.trans_lt (by decide)),
    getItemCount_setItemCount _ (by omega)]

/-- A stack that another one is merged with. -/
theorem Orderly.updateThing (h : Orderly w s) (hhas : s.Has t)
    (hstack : isStackable w.types t = true) {n : ℕ} (hn : n ≤ 100) :
    Orderly w (s.updateThing w.toConfig t t.item.id n) := by
  refine h.alter (fun i j hij => ?_) fun i j hi href hij => ?_
  · rw [← Option.some.inj hij]
  · obtain rfl := h.distinct.eq_of_has hi hhas href
    obtain rfl := Option.some.inj hij
    refine ⟨by simp, fun _ => ?_⟩
    rw [getItemCount_updateThing hstack hn]
    exact hn

theorem weigh_updateThing (id : UInt16) (h : Orderly w s) (hhas : s.Has t)
    (hstack : isStackable w.types t = true) {n : ℕ} (hn : n ≤ 100) :
    (s.updateThing w.toConfig t t.item.id n).weigh (pieces w.types id) + pieces w.types id t =
      s.weigh (pieces w.types id) + if t.item.id = id then n else 0 := by
  refine (weigh_alter (pieces w.types id) h.distinct hhas).trans ?_
  rw [Option.elim_some]
  have hupdated : ((t.item.setID w.types t.item.id).setSubType w.types (UInt16.ofNat n)).id =
      t.item.id := by simp
  have hstack' : isStackable w.types ⟨t.ref, (t.item.setID w.types t.item.id).setSubType w.types
      (UInt16.ofNat n)⟩ = true := (isStackable_congr hupdated).trans hstack
  unfold pieces
  rw [size_of_stackable hstack', getItemCount_updateThing hstack hn]
  dsimp only
  rw [hupdated]

/-- A part of a stack as a new object. -/
theorem pieces_clone {c : Item} {fresh n : ℕ} (hstack : isStackable w.types item = true)
    (hclone : item.item.clone w.types = some c) (hn : n ≤ 100) :
    pieces w.types id ⟨fresh, c.setItemCount n⟩ = if item.item.id = id then n else 0 := by
  have hid : c.id = item.item.id := id_clone (w.stack _ hstack) hclone
  have hstack' : isStackable w.types ⟨fresh, c.setItemCount n⟩ = true :=
    (isStackable_congr (i := ⟨fresh, c.setItemCount n⟩) hid).trans hstack
  unfold pieces
  rw [size_of_stackable hstack', getItemCount_setItemCount c (by omega)]
  change (if c.id = id then n else 0) = _
  rw [hid]

theorem has_addThing_outside {index : ℤ} (hi : (s.addThing .outside index item).Has i) :
    s.Has i ∨ i = item := by
  rcases hi with hi | hi
  · exact .inl (.inl hi)
  · rcases List.mem_cons.1 hi with rfl | hi
    · exact .inr rfl
    · exact .inl (.inr hi)

theorem Orderly.addThing_outside {index : ℤ} (h : Orderly w s)
    (hnew : ∀ i, s.Has i → i.ref ≠ item.ref)
    (hlimit : isStackable w.types item = true → getItemCount item ≤ 100) :
    Orderly w (s.addThing .outside index item) where
  distinct := h.distinct.addThing hnew
  dressed := h.dressed
  limited i hi hstack := by
    rcases has_addThing_outside hi with hi | rfl
    · exact h.limited i hi hstack
    · exact hlimit hstack

theorem Orderly.addThing_player {index : ℤ} {slot : Slot} (h : Orderly w s)
    (hslot : slotAt index = some slot) (hnew : ∀ i, s.Has i → i.ref ≠ item.ref)
    (hlimit : isStackable w.types item = true → getItemCount item ≤ 100)
    (hdressed : Dressed w.toConfig (Function.update s.inventory slot (some item))) :
    Orderly w (s.addThing .player index item) := by
  have hadd : s.addThing .player index item =
      { s with inventory := Function.update s.inventory slot (some item) } := by
    simp [State.addThing, hslot]
  refine ⟨h.distinct.addThing hnew, ?_, fun i hi hstack => ?_⟩
  · rw [hadd]
    exact hdressed
  · rw [hadd] at hi
    rcases hi with ⟨t, hi⟩ | hi
    · by_cases ht : t = slot
      · subst ht
        obtain rfl : item = i := by simpa using hi
        exact hlimit hstack
      · simp only [Function.update_of_ne ht] at hi
        exact h.limited i (.inl ⟨t, hi⟩) hstack
    · exact h.limited i (.inr hi) hstack

end Pieces

/-! ## Moves -/

section Moves

variable {w : Wardrobe} {a : Answers} {flags : Flags} {s s' : State} {source dest : Side}
  {index : ℤ} {item t : TileItem} {toItem : Option TileItem} {count m fresh : ℕ} {slot : Slot}
  {id : UInt16} {ret : ReturnValue}

theorem queryRemove_eq_noError {config : Config} {side : Side}
    (h : queryRemove config s item side m flags = .noError) :
    m ≠ 0 ∧ (isStackable config.types item = true → m ≤ getItemCount item) := by
  unfold queryRemove at h
  split_ifs at h with hindex hcount
  · simp only [not_or, not_and, not_lt] at hcount
    exact hcount

theorem queryAdd_eq_noError {config : Config} (hchild : flags.childIsOwner = false)
    (h : queryAdd config item count a s index flags = .noError) :
    querySlot config item count s.inventory index = .noError ∧
      ∀ t ∈ (slotAt index).bind s.inventory,
        isStackable config.types t = true ∧ t.item.id = item.item.id := by
  unfold queryAdd at h
  dsimp only at h
  rw [hchild, if_neg (by simp)] at h
  split_ifs at h with hpickup hret hexchange hcapacity hequip
  · refine ⟨h, fun t ht => ?_⟩
    rw [Option.mem_def.1 ht] at hexchange
    simpa using hexchange
  · exact absurd (.inl h) hret

/-- The room of a slot that has agreed. -/
theorem queryMaxCount_slot (config : Config) (a : Answers) (s : State) (item : TileItem) (count : ℕ)
    (flags : Flags) (hslot : slotAt index = some slot) :
    (s.inventory slot = none ∧ queryAdd config item count a s index flags = .noError →
      (queryMaxCount config a s item index count flags).2 = emptyRoom config item) ∧
    ∀ t, s.inventory slot = some t →
      (queryMaxCount config a s item index count flags).2 = 0 ∨
      isStackable config.types t = true ∧ item.item.equals (some t.item) = true ∧
        (queryMaxCount config a s item index count flags).2 = 100 - getItemCount t := by
  have hindex : index ≠ -1 := by
    rw [← constSlot_of_slotAt hslot]
    cases slot <;> decide
  unfold queryMaxCount
  rw [if_neg hindex, hslot, Option.bind_some]
  constructor
  · rintro ⟨hnone, hadd⟩
    rw [hnone]
    dsimp only
    rw [if_pos hadd]
  · intro t ht
    rw [ht]
    dsimp only
    split
    · next hroom =>
      simp only [Bool.and_eq_true, decide_eq_true_eq] at hroom
      exact .inr ⟨hroom.1.1, hroom.1.2, rfl⟩
    · exact .inl rfl

theorem id_eq_of_equals (h : item.item.equals (some t.item) = true) : t.item.id = item.item.id := by
  unfold Item.equals at h
  exact (beq_iff_eq.1 (Bool.and_eq_true _ _ ▸ h).1).symm

/-- How much is moved where both sides agree. -/
def amount (config : Config) (item : TileItem) (count maxQueryCount : ℕ) : ℕ :=
  if isStackable config.types item then min count maxQueryCount else maxQueryCount

/-- Either nothing happens or the item leaves and arrives. -/
theorem carry_cases {config : Config}
    (h : carry config a flags source dest index item count s toItem fresh = some (ret, s')) :
    s' = s ∨
      queryRemove config s item source (amount config item count
        (queryMaxCountSide config a s dest index item count flags).2) flags = .noError ∧
      arrive config dest index item (s.removeThing config item (amount config item count
        (queryMaxCountSide config a s dest index item count flags).2)) toItem (amount config item
        count (queryMaxCountSide config a s dest index item count flags).2) fresh = some s' := by
  unfold carry at h
  generalize hmax : queryMaxCountSide config a s dest index item count flags = p at h ⊢
  obtain ⟨retMaxCount, maxQueryCount⟩ := p
  dsimp only at h ⊢
  split at h
  · cases h
    exact .inl rfl
  · change (if queryRemove config s item source (amount config item count maxQueryCount) flags ≠
      .noError then _ else _) = _ at h
    split at h
    · cases h
      exact .inl rfl
    · next hremove =>
      obtain ⟨s'', harrive, heq⟩ := Option.map_eq_some_iff.1 h
      cases heq
      exact .inr ⟨not_ne_iff.1 hremove, harrive⟩

/-- How an item arrives: merged with the one that is there, as a new stack, or as it is. -/
theorem arrive_cases {config : Config}
    (h : arrive config dest index item s toItem m fresh = some s') :
    (isStackable config.types item = true ∧ ∃ t ∈ toItem, item.item.equals (some t.item) = true ∧
      ((m - merged t m = 0 ∧
        s' = s.updateThing config t t.item.id (getItemCount t + merged t m)) ∨
      (m - merged t m ≠ 0 ∧ ∃ c, item.item.clone config.types = some c ∧
        s' = (s.updateThing config t t.item.id (getItemCount t + merged t m)).addThing dest index
          ⟨fresh, c.setItemCount (m - merged t m)⟩))) ∨
    ((∀ t ∈ toItem, isStackable config.types item = true →
        item.item.equals (some t.item) = false) ∧
      ((isStackable config.types item = true ∧ m = 0 ∧ s' = s) ∨
      (isStackable config.types item = true ∧ ∃ c, item.item.clone config.types = some c ∧
        s' = s.addThing dest index ⟨fresh, c.setItemCount m⟩) ∨
      (isStackable config.types item ≠ true ∧ s' = s.addThing dest index item))) := by
  unfold arrive at h
  by_cases hstack : isStackable config.types item = true
  · rw [if_pos hstack] at h
    cases ht : toItem.filter fun toItem => item.item.equals (some toItem.item) with
    | some t =>
      obtain ⟨hmem, hequals⟩ := Option.filter_eq_some_iff.1 ht
      rw [ht] at h
      dsimp only at h
      refine .inl ⟨hstack, t, hmem, hequals, ?_⟩
      split at h
      · next hzero => exact .inl ⟨hzero, (Option.some.inj h).symm⟩
      · next hzero =>
        obtain ⟨c, hc, rfl⟩ := Option.map_eq_some_iff.1 h
        exact .inr ⟨hzero, c, hc, rfl⟩
    | none =>
      have hdiffer : ∀ t ∈ toItem, item.item.equals (some t.item) = false := by
        rintro t rfl
        simpa using Option.filter_eq_none_iff.1 ht t rfl
      rw [ht] at h
      dsimp only at h
      refine .inr ⟨fun t ht _ => hdiffer t ht, ?_⟩
      split at h
      · next hzero => exact .inl ⟨hstack, hzero, (Option.some.inj h).symm⟩
      · obtain ⟨c, hc, rfl⟩ := Option.map_eq_some_iff.1 h
        exact .inr (.inl ⟨hstack, c, hc, rfl⟩)
  · rw [if_neg hstack] at h
    exact .inr ⟨fun t _ h => absurd h hstack, .inr (.inr ⟨hstack, (Option.some.inj h).symm⟩)⟩

theorem merged_le (hle : getItemCount t ≤ 100) :
    merged t m = min (100 - getItemCount t) m := if_pos hle

/-- The pieces that come to a stack are added to it. -/
theorem merge_spec (h : Orderly w s) (hhas : s.Has t) (hstack : isStackable w.types t = true) :
    Orderly w (s.updateThing w.toConfig t t.item.id (getItemCount t + merged t m)) ∧ ∀ id,
      (s.updateThing w.toConfig t t.item.id (getItemCount t + merged t m)).weigh
        (pieces w.types id) =
          s.weigh (pieces w.types id) + if t.item.id = id then merged t m else 0 := by
  have hlimit := h.limited t hhas hstack
  have hsum : getItemCount t + merged t m ≤ 100 := by
    rw [merged_le hlimit]
    omega
  refine ⟨h.updateThing hhas hstack hsum, fun id => ?_⟩
  have hweigh := weigh_updateThing id h hhas hstack hsum
  have hsize : pieces w.types id t = if t.item.id = id then getItemCount t else 0 := by
    unfold pieces
    rw [size_of_stackable hstack]
  rw [hsize] at hweigh
  split_ifs at hweigh ⊢ <;> omega

/-- Order is kept, and so is the number of pieces of every kind. -/
def Fair (w : Wardrobe) (s s' : State) : Prop :=
  Orderly w s' ∧ ∀ id, s'.weigh (pieces w.types id) = s.weigh (pieces w.types id)

theorem ref_of_updateThing {itemId : UInt16} {n : ℕ} {i : TileItem}
    (hi : (s.updateThing w.toConfig t itemId n).Has i) : ∃ j, s.Has j ∧ i.ref = j.ref := by
  obtain ⟨j, hj, ⟨-, rfl⟩ | ⟨-, hji⟩⟩ := has_alter hi
  · exact ⟨j, hj, rfl⟩
  · exact ⟨j, hj, by rw [← Option.some.inj hji]⟩

theorem inventory_removeThing_of_none (hnone : s.inventory slot = none) :
    (s.removeThing w.toConfig item m).inventory slot = none := by
  unfold State.removeThing
  rw [inventory_alter, hnone, Option.bind_none]

theorem keeps_removeThing (h : Orderly w s) (hhas : s.Has item) :
    Keeps (s.removeThing w.toConfig item m).inventory s.inventory := by
  intro slot i hi
  obtain ⟨j, hj, ⟨-, rfl⟩ | ⟨href, hji⟩⟩ := inventory_alter_eq_some hi
  · exact ⟨j, hj, rfl, rfl⟩
  · refine ⟨j, hj, ?_⟩
    split at hji
    · obtain rfl := Option.some.inj hji
      obtain rfl := h.distinct.eq_of_has (.inl ⟨slot, hj⟩) hhas href
      exact ⟨rfl, rfl⟩
    · cases hji

section Carry

variable (h : Orderly w s) (hhas : s.Has item) (hfresh : ∀ i, s.Has i → i.ref ≠ fresh)
  (htarget : ∀ t ∈ toItem, s.Has t ∧ t.ref ≠ item.ref) (hne : m ≠ 0)
  (hle : isStackable w.types item = true → m ≤ getItemCount item)

include h hhas htarget hle

/-- A stack is merged with another one. -/
theorem merge_removeThing (ht : t ∈ toItem) (hstack : isStackable w.types item = true)
    (hequals : item.item.equals (some t.item) = true) :
    Orderly w ((s.removeThing w.toConfig item m).updateThing w.toConfig t t.item.id
      (getItemCount t + merged t m)) ∧ merged t m ≤ m ∧ ∀ id,
      ((s.removeThing w.toConfig item m).updateThing w.toConfig t t.item.id
        (getItemCount t + merged t m)).weigh (pieces w.types id) +
          (if item.item.id = id then m - merged t m else 0) = s.weigh (pieces w.types id) := by
  obtain ⟨hthas, htref⟩ := htarget t ht
  have hid := id_eq_of_equals hequals
  have htstack : isStackable w.types t = true := (isStackable_congr hid).trans hstack
  have hmerged : merged t m ≤ m := by
    rw [merged_le (h.limited t hthas htstack)]
    exact Nat.min_le_right _ _
  obtain ⟨horder, hweigh⟩ := merge_spec (m := m) (h.removeThing (m := m) hhas)
    (has_alter_of_ne hthas htref) htstack
  refine ⟨horder, hmerged, fun id => ?_⟩
  have hremoved := weigh_removeThing id h hhas hle
  rw [taken, if_pos hstack] at hremoved
  rw [hweigh id, hid]
  split_ifs at hremoved ⊢ <;> omega

include hfresh hne

theorem arrive_outside (harrive : arrive w.toConfig .outside index item
    (s.removeThing w.toConfig item m) toItem m fresh = some s') : Fair w s s' := by
  have hremoved := fun id => weigh_removeThing id h hhas hle
  have horder := h.removeThing (m := m) hhas
  have hnew : ∀ i, (s.removeThing w.toConfig item m).Has i → i.ref ≠ fresh := by
    intro i hi
    obtain ⟨j, hj, href⟩ := ref_of_removeThing hi
    exact href ▸ hfresh j hj
  rcases arrive_cases harrive with ⟨hstack, t, ht, hequals, hcase⟩ | ⟨-, hcase⟩
  · obtain ⟨horder', hmerged, hweigh⟩ := merge_removeThing h hhas htarget hle ht hstack hequals
    rcases hcase with ⟨hzero, rfl⟩ | ⟨-, c, hclone, rfl⟩
    · refine ⟨horder', fun id => ?_⟩
      have hweigh := hweigh id
      rw [hzero, ite_self] at hweigh
      exact hweigh
    · have hlimit := h.limited item hhas hstack
      have hle := hle hstack
      refine ⟨horder'.addThing_outside (fun i hi => ?_) fun _ => ?_, fun id => ?_⟩
      · obtain ⟨j, hj, href⟩ := ref_of_updateThing hi
        exact href ▸ hnew j hj
      · rw [getItemCount_setItemCount c (by omega)]
        omega
      · rw [weigh_addThing_outside, pieces_clone hstack hclone (by omega)]
        exact hweigh id
  · rcases hcase with ⟨-, hzero, -⟩ | ⟨hstack, c, hclone, rfl⟩ | ⟨hstack, rfl⟩
    · exact absurd hzero hne
    · have hlimit := h.limited item hhas hstack
      have hle := hle hstack
      refine ⟨horder.addThing_outside hnew fun _ => ?_, fun id => ?_⟩
      · rw [getItemCount_setItemCount c (by omega)]
        omega
      · rw [weigh_addThing_outside, pieces_clone hstack hclone (by omega), ← hremoved id, taken,
          if_pos hstack]
    · refine ⟨horder.addThing_outside (fun i hi => ?_) (fun hyes => absurd hyes hstack),
        fun id => ?_⟩
      · exact ref_ne_of_removeThing (fun hpart => hstack hpart.1) hi
      · rw [weigh_addThing_outside, ← hremoved id, taken, if_neg hstack, pieces,
          size_of_not_stackable hstack]

theorem arrive_player (hslot : slotAt index = some slot) (htoItem : toItem = s.inventory slot)
    (hagreed : Agreed w.toConfig s.inventory item count slot)
    (hempty : s.inventory slot = none →
      m = amount w.toConfig item count (emptyRoom w.toConfig item))
    (hroom : ∀ t, s.inventory slot = some t → isStackable w.types item = true ∧
      item.item.equals (some t.item) = true ∧ m ≤ 100 - getItemCount t)
    (harrive : arrive w.toConfig .player index item (s.removeThing w.toConfig item m) toItem m
      fresh = some s') : Fair w s s' := by
  have hremoved := fun id => weigh_removeThing id h hhas hle
  have horder := h.removeThing (m := m) hhas
  have hkeep := keeps_removeThing (m := m) h hhas
  rcases arrive_cases harrive with ⟨hstack, t, ht, hequals, hcase⟩ | ⟨hdiffer, hcase⟩
  · -- what is there has room for all that comes
    obtain ⟨horder', -, hweigh⟩ := merge_removeThing h hhas htarget hle ht hstack hequals
    have hthere : s.inventory slot = some t := htoItem ▸ ht
    have hfull : m - merged t m = 0 := by
      have hroom := (hroom t hthere).2.2
      have hthas : isStackable w.types t = true :=
        (isStackable_congr (id_eq_of_equals hequals)).trans hstack
      rw [merged_le (h.limited t (.inl ⟨slot, hthere⟩) hthas)]
      omega
    rcases hcase with ⟨-, rfl⟩ | ⟨hrest, -⟩
    · refine ⟨horder', fun id => ?_⟩
      have hweigh := hweigh id
      rw [hfull, ite_self] at hweigh
      exact hweigh
    · exact absurd hfull hrest
  · have hnone : s.inventory slot = none := by
      cases hthere : s.inventory slot with
      | none => rfl
      | some t =>
        obtain ⟨hstack, hequals, -⟩ := hroom t hthere
        rw [hdiffer t (htoItem.trans hthere) hstack] at hequals
        cases hequals
    have hnone' : (s.removeThing w.toConfig item m).inventory slot = none :=
      inventory_removeThing_of_none hnone
    have hm := hempty hnone
    unfold amount emptyRoom at hm
    rcases hcase with ⟨-, hzero, -⟩ | ⟨hstack, c, hclone, rfl⟩ | ⟨hstack, rfl⟩
    · exact absurd hzero hne
    · rw [if_pos hstack, if_pos hstack] at hm
      have hlimit := h.limited item hhas hstack
      have hcount : getItemCount ⟨fresh, c.setItemCount m⟩ = m :=
        getItemCount_setItemCount c (by omega)
      refine ⟨horder.addThing_player hslot (fun i hi => ?_) (fun _ => by omega) ?_, fun id => ?_⟩
      · obtain ⟨j, hj, href⟩ := ref_of_removeThing hi
        exact href ▸ hfresh j hj
      · refine h.dressed.put hkeep hagreed (c := ⟨fresh, c.setItemCount m⟩)
          (id_clone (w.stack _ hstack) hclone :) ?_
        by_cases hwhole : count = getItemCount item
        · refine .inl fun t i hi => ref_ne_of_removeThing (fun hpart => hpart.2 ?_) (.inl ⟨t, hi⟩)
          omega
        · exact .inr ⟨hstack, hwhole⟩
      · rw [weigh_addThing_player _ hslot hnone', pieces_clone hstack hclone (by omega),
          ← hremoved id, taken, if_pos hstack]
    · have hgone : ∀ i, (s.removeThing w.toConfig item m).Has i → i.ref ≠ item.ref := fun i hi =>
        ref_ne_of_removeThing (fun hpart => hstack hpart.1) hi
      refine ⟨horder.addThing_player hslot hgone (fun hyes => absurd hyes hstack) ?_,
        fun id => ?_⟩
      · exact h.dressed.put hkeep hagreed rfl (.inl fun t i hi => hgone i (.inl ⟨t, hi⟩))
      · rw [weigh_addThing_player _ hslot hnone', ← hremoved id, taken, if_neg hstack, pieces,
          size_of_not_stackable hstack]

end Carry

/-- Where an item goes: onto what is in the slot, or onto something of the other cylinder. -/
structure Target (s : State) (dest : Side) (index : ℤ) (item : TileItem)
    (toItem : Option TileItem) : Prop where
  has : ∀ t ∈ toItem, s.Has t
  player : dest = .player → toItem = (slotAt index).bind s.inventory

theorem carry_spec (h : Orderly w s) (hhas : s.Has item) (hfresh : ∀ i, s.Has i → i.ref ≠ fresh)
    (htarget : Target s dest index item toItem) (hother : toItem.map (·.ref) ≠ some item.ref)
    (hchild : flags.childIsOwner = false)
    (hadd : dest = .player → queryAdd w.toConfig item count a s index flags = .noError)
    (hcarry : carry w.toConfig a flags source dest index item count s toItem fresh =
      some (ret, s')) : Fair w s s' := by
  have hne : ∀ t ∈ toItem, s.Has t ∧ t.ref ≠ item.ref := by
    rintro t rfl
    exact ⟨htarget.has t rfl, fun href => hother (congrArg some href)⟩
  rcases carry_cases hcarry with rfl | ⟨hremove, harrive⟩
  · exact ⟨h, fun _ => rfl⟩
  obtain ⟨hzero, hle⟩ := queryRemove_eq_noError hremove
  cases dest with
  | outside => exact arrive_outside h hhas hfresh hne hzero hle harrive
  | player =>
    have hadd := hadd rfl
    obtain ⟨hslotAdd, hoccupant⟩ := queryAdd_eq_noError hchild hadd
    obtain ⟨slot, hslot, hagreed⟩ := agreed_of_querySlot h.dressed hslotAdd
    have htoItem := htarget.player rfl
    rw [hslot, Option.bind_some] at htoItem hoccupant
    obtain ⟨hempty, hfull⟩ := queryMaxCount_slot w.toConfig a s item count flags hslot
    refine arrive_player h hhas hfresh hne hzero hle hslot htoItem hagreed (fun hnone => ?_)
      (fun t ht => ?_) harrive
    · change amount w.toConfig item count
        (queryMaxCount w.toConfig a s item index count flags).2 = _
      rw [hempty ⟨hnone, hadd⟩]
    · obtain ⟨htstack, hid⟩ := hoccupant t ht
      have hstack : isStackable w.types item = true := (isStackable_congr hid.symm).trans htstack
      change _ ∧ _ ∧ amount w.toConfig item count
        (queryMaxCount w.toConfig a s item index count flags).2 ≤ _
      change amount w.toConfig item count
        (queryMaxCount w.toConfig a s item index count flags).2 ≠ 0 at hzero
      unfold amount at hzero ⊢
      rw [if_pos hstack] at hzero ⊢
      rcases hfull t ht with hnoroom | ⟨-, hequals, hroom⟩
      · exact absurd (by rw [hnoroom]; exact Nat.min_zero _) hzero
      · exact ⟨hstack, hequals, hroom ▸ Nat.min_le_right _ _⟩

/-! ### Exchanges -/

theorem queryHand_ne_needExchange (config : Config) (item : TileItem) (count : ℕ)
    (other : Option TileItem) :
    queryHand config item count other ≠ .needExchange := by
  unfold queryHand
  dsimp only
  split_ifs
  · simp
  · simp
  · cases other with
    | none => simp
    | some other =>
      dsimp only
      split_ifs <;> simp

theorem querySlot_ne_needExchange {config : Config} {inventory : Inventory} :
    querySlot config item count inventory index ≠ .needExchange := by
  have hrefusal : ∀ slotPosition, refusal config slotPosition ≠ .needExchange := by
    intro slotPosition
    unfold refusal
    split_ifs <;> simp
  have hright : queryRight config item (inventory .left) ≠ .needExchange := by
    unfold queryRight
    cases inventory .left <;> dsimp only <;> split_ifs <;> simp
  have hleft : queryLeft config item (inventory .right) ≠ .needExchange := by
    unfold queryLeft
    dsimp only
    split_ifs <;> simp
  have hhand := queryHand_ne_needExchange config item count
  unfold querySlot
  dsimp only
  cases slotAt index with
  | none =>
    dsimp only
    split_ifs <;> simp
  | some slot =>
    cases slot <;> dsimp only <;> (try split_ifs) <;>
      first
        | exact hrefusal _
        | exact hhand _
        | exact hright
        | exact hleft
        | simp

/-- What is in the way is something else. -/
theorem queryAdd_eq_needExchange {config : Config} (hchild : flags.childIsOwner = false)
    (h : queryAdd config item count a s index flags = .needExchange) :
    ∃ t ∈ (slotAt index).bind s.inventory,
      isStackable config.types t = true → t.item.id ≠ item.item.id := by
  unfold queryAdd at h
  dsimp only at h
  rw [hchild, if_neg (by simp)] at h
  split at h
  · cases h
  split at h
  · split at h
    · next hexchange =>
      obtain ⟨t, ht, hother⟩ := (Option.any_eq_true _ _).1 hexchange
      exact ⟨t, ht, by simpa [imp_iff_not_or] using hother⟩
    · next hret _ =>
      split_ifs at h
      exact absurd h querySlot_ne_needExchange
  · exact absurd h querySlot_ne_needExchange

theorem mem_of_find {side : Side} {ref : ℕ} (h : s.find side ref = some item) :
    item ∈ s.held side :=
  List.mem_of_find?_eq_some h

/-- A worn item has its slot. -/
theorem slotAt_getThingIndex (h : Distinct s) (hheld : item ∈ s.held .player) :
    (slotAt (getThingIndex s item .player)).bind s.inventory = some item := by
  obtain ⟨slot, -, hslot⟩ := List.mem_filterMap.1 hheld
  unfold getThingIndex
  dsimp only
  cases hfind : Slot.all.find? fun slot => (s.inventory slot).map (·.ref) = some item.ref with
  | none =>
    have hnot := List.find?_eq_none.1 hfind slot (by cases slot <;> decide)
    rw [hslot] at hnot
    simp at hnot
  | some slot' =>
    have hsame : (s.inventory slot').map (·.ref) = some item.ref := by
      simpa using List.find?_some hfind
    obtain ⟨i, hi, href⟩ := Option.map_eq_some_iff.1 hsame
    obtain rfl := h.slot_eq hi hslot href
    rw [slotAt_constSlot, Option.bind_some, hslot]

/-- The player does not take something in exchange for an item that cannot be merged with it. -/
theorem source_eq_outside (h : Orderly w s) (hheld : item ∈ s.held source)
    (hdiffer : isStackable w.types item = true → t.item.id ≠ item.item.id)
    (hsource : queryAddSide w.toConfig a s source (getThingIndex s item source) t (getItemCount t)
      {} = .noError) : source = .outside := by
  cases source with
  | outside => rfl
  | player =>
    obtain ⟨-, hoccupant⟩ := queryAdd_eq_noError rfl hsource
    obtain ⟨hstack, hid⟩ := hoccupant item (slotAt_getThingIndex h.distinct hheld)
    exact absurd hid.symm (hdiffer hstack)

/-- What is in the way goes to where the item comes from. -/
theorem exchange_spec (h : Orderly w s) (hhas : s.Has t) :
    Fair w s ((s.removeThing w.toConfig t (getItemCount t)).addThingAnywhere .outside t) := by
  have hwhole : ¬ (isStackable w.types t = true ∧ getItemCount t ≠ getItemCount t) := by simp
  have horder := h.removeThing (m := getItemCount t) hhas
  change Fair w s ((s.removeThing w.toConfig t (getItemCount t)).addThing .outside 0 t)
  refine ⟨horder.addThing_outside (fun i hi => ref_ne_of_removeThing hwhole hi)
    (h.limited t hhas), fun id => ?_⟩
  rw [weigh_addThing_outside, ← weigh_removeThing id h hhas fun _ => le_rfl]
  rfl

theorem Fair.trans {s₁ s₂ s₃ : State} (h : Fair w s₁ s₂) (h' : Fair w s₂ s₃) : Fair w s₁ s₃ :=
  ⟨h'.1, fun id => (h'.2 id).trans (h.2 id)⟩

/-- What other cylinders answer: nothing is exchanged for a stack. -/
def Sensible (w : Wardrobe) (a : Answers) : Prop :=
  ∀ s index item count, a.queryAdd s index item count = .needExchange →
    isStackable w.types item = false

/-- The part of a move after what was in the way has gone. -/
theorem carry_exchanged (h : Orderly w s) (hhas : s.Has item)
    (hfresh : ∀ i, s.Has i → i.ref ≠ fresh) (htarget : Target s dest index item (some t))
    (hother : t.ref ≠ item.ref) (hchild : flags.childIsOwner = false)
    {s₁ : State} (hs₁ : s₁ =
      (s.removeThing w.toConfig t (getItemCount t)).addThingAnywhere .outside t)
    (hadd : queryAddSide w.toConfig a s₁ dest index item count flags = .noError)
    (hcarry : carry w.toConfig a flags source dest index item count s₁ none fresh =
      some (ret, s')) : Fair w s s' := by
  have hthas : s.Has t := htarget.has t rfl
  have hexchange : Fair w s s₁ := hs₁ ▸ exchange_spec h hthas
  have hrefs : ∀ i, s₁.Has i → ∃ j, s.Has j ∧ i.ref = j.ref := by
    intro i hi
    rw [hs₁] at hi
    have hi : (s.removeThing w.toConfig t (getItemCount t) |>.addThing .outside 0 t).Has i := hi
    rcases has_addThing_outside hi with hi | rfl
    · exact ref_of_removeThing hi
    · exact ⟨_, hthas, rfl⟩
  have hstill : s₁.Has item := by
    rw [hs₁]
    rcases has_alter_of_ne hhas (Ne.symm hother) with hslot | hout
    · exact .inl hslot
    · exact .inr (List.mem_cons_of_mem _ hout)
  refine hexchange.trans (carry_spec hexchange.1 hstill (fun i hi => ?_)
    ⟨by simp, fun hdest => ?_⟩
    (by simp) hchild (fun hdest => ?_) hcarry)
  · obtain ⟨j, hj, href⟩ := hrefs i hi
    exact href ▸ hfresh j hj
  · -- the slot is empty now
    cases hslot : slotAt index with
    | none => rfl
    | some slot =>
      have hthere := htarget.player hdest
      rw [hslot, Option.bind_some] at hthere
      rw [Option.bind_some, hs₁]
      change none = (s.removeThing w.toConfig t (getItemCount t)).inventory slot
      unfold State.removeThing
      rw [inventory_alter, ← hthere, Option.bind_some, if_pos rfl, if_neg (by simp)]
  · subst hdest
    exact hadd

/-- Nothing goes to a slot with something else in it that stays there. -/
theorem carry_of_differ {config : Config} (hslot : slotAt index = some slot)
    (ht : s.inventory slot = some t)
    (hdiffer : isStackable config.types t = true → t.item.id ≠ item.item.id)
    (hcarry : carry config a flags source .player index item count s toItem fresh =
      some (ret, s')) : s' = s := by
  rcases carry_cases hcarry with heq | ⟨hremove, -⟩
  · exact heq
  have hzero := (queryRemove_eq_noError hremove).1
  have hmax : (queryMaxCountSide config a s .player index item count flags).2 = 0 := by
    rcases (queryMaxCount_slot config a s item count flags hslot).2 t ht with
      hnone | ⟨hstack, hequals, -⟩
    · exact hnone
    · exact absurd (id_eq_of_equals hequals) (hdiffer hstack)
  rw [amount, hmax] at hzero
  simp at hzero

theorem internalMoveItem_spec (h : Orderly w s) (hheld : item ∈ s.held source)
    (hfresh : ∀ i, s.Has i → i.ref ≠ fresh) (htarget : Target s dest index item toItem)
    (hchild : flags.childIsOwner = false) (hsensible : Sensible w a)
    (hmove : internalMoveItem w.toConfig a flags source dest index item count s toItem fresh =
      some (ret, s')) : Fair w s s' := by
  have hhas := has_of_mem_held hheld
  have hsame : Fair w s s := ⟨h, fun _ => rfl⟩
  unfold internalMoveItem at hmove
  split at hmove
  · cases hmove
    exact hsame
  next hother =>
  dsimp only at hmove
  split at hmove
  · cases hmove
  · next t hneed =>
    -- the item does not merge with what is in the way
    have hdiffer : isStackable w.types item = true → t.item.id ≠ item.item.id := by
      intro hstack
      cases dest with
      | player =>
        obtain ⟨t', ht', hid⟩ := queryAdd_eq_needExchange hchild hneed
        rw [← htarget.player rfl] at ht'
        obtain rfl := Option.some.inj ht'
        exact fun heq => hid ((isStackable_congr heq).trans hstack) heq
      | outside =>
        rw [hsensible s index item count hneed] at hstack
        cases hstack
    split at hmove
    · cases hmove
      exact hsame
    next hsource =>
    obtain rfl := source_eq_outside h hheld hdiffer (not_ne_iff.1 hsource)
    split at hmove
    · cases hmove
      exact hsame
    split at hmove
    · split at hmove
      · cases hmove
        exact exchange_spec h (htarget.has t rfl)
      · next hadd =>
        exact carry_exchanged h hhas hfresh htarget (fun href => hother (congrArg some href)) hchild
          rfl (not_ne_iff.1 hadd) hmove
    · -- what is in the way does not go
      cases dest with
      | outside => exact carry_spec h hhas hfresh htarget hother hchild nofun hmove
      | player =>
        obtain ⟨slot, hslot, ht⟩ := Option.bind_eq_some_iff.1 (htarget.player rfl).symm
        rw [carry_of_differ hslot ht (fun hstack heq => hdiffer
          ((isStackable_congr heq.symm).trans hstack) heq) hmove]
        exact hsame
  · next hadd =>
    exact carry_spec h hhas hfresh htarget hother hchild (fun hdest => by subst hdest; exact hadd)
      hmove
  · cases hmove
    exact hsame

theorem target_queryDestination {config : Config} {destItem : Option TileItem} {index' : ℤ}
    (h : queryDestination config a s item index flags = .slot index' destItem) :
    Target s .player index' item destItem := by
  have hslot : destItem = (slotAt index').bind s.inventory := by
    unfold queryDestination at h
    split at h
    · next hanywhere =>
      split at h
      · obtain ⟨rfl, rfl⟩ := Destination.slot.inj h
        rw [slotAt_constSlot, Option.bind_some]
      · split at h
        · cases h
        · obtain ⟨rfl, rfl⟩ := Destination.slot.inj h
          rcases hanywhere with rfl | rfl <;> rfl
    · split at h
      · next heq =>
        split at h
        · cases h
        · obtain ⟨rfl, rfl⟩ := Destination.slot.inj h
          exact heq.symm
      · next heq =>
        obtain ⟨rfl, rfl⟩ := Destination.slot.inj h
        exact heq.symm
  refine ⟨fun t ht => ?_, fun _ => hslot⟩
  obtain ⟨slot, -, ht⟩ := Option.bind_eq_some_iff.1 (hslot ▸ ht)
  exact .inl ⟨slot, ht⟩

theorem target_destination (config : Config) (s : State) (a : Answers) (dest : Side) (index : ℤ)
    (item : TileItem) (hchild : flags.childIsOwner = false) (hout : ∀ t ∈ toItem, t ∈ s.outside) :
    (destination config s a flags dest index item toItem).1.childIsOwner = false ∧
      Target s (destination config s a flags dest index item toItem).2.1
        (destination config s a flags dest index item toItem).2.2.1 item
        (destination config s a flags dest index item toItem).2.2.2 := by
  have houtside : ∀ index, Target s .outside index item toItem := fun index =>
    ⟨fun t ht => .inr (hout t ht), nofun⟩
  unfold destination
  cases dest with
  | outside => exact ⟨hchild, houtside _⟩
  | player =>
    dsimp only
    split
    · next heq => exact ⟨hchild, target_queryDestination heq⟩
    · exact ⟨rfl, houtside _⟩

end Moves

/-! ## Runs -/

/-- What is promised of an action: addresses are new, and what appears is no larger than a stack may
be. -/
def Action.Ok (w : Wardrobe) (s : State) : Action → Prop
  | .move a flags _ _ _ _ _ _ fresh =>
    flags.childIsOwner = false ∧ Sensible w a ∧ ∀ i, s.Has i → i.ref ≠ fresh
  | .appear item =>
    (∀ i, s.Has i → i.ref ≠ item.ref) ∧
      (isStackable w.types item = true → getItemCount item ≤ 100)
  | .remove .. => True

def Step (w : Wardrobe) (s s' : State) : Prop :=
  ∃ action : Action, action.Ok w s ∧ step w.toConfig s action = some s'

/-- A step that only moves something. -/
def MoveStep (w : Wardrobe) (s s' : State) : Prop :=
  ∃ a flags source dest index ref toRef count fresh,
    (Action.move a flags source dest index ref toRef count fresh).Ok w s ∧
      step w.toConfig s (.move a flags source dest index ref toRef count fresh) = some s'

section Runs

variable {w : Wardrobe} {s s' : State}

theorem MoveStep.fair (h : Orderly w s) (hstep : MoveStep w s s') : Fair w s s' := by
  obtain ⟨a, flags, source, dest, index, ref, toRef, count, fresh, ⟨hchild, hsensible, hfresh⟩,
    hstep⟩ := hstep
  unfold step at hstep
  dsimp only at hstep
  split at hstep
  · next item hitem =>
    have hout : ∀ t ∈ toRef.bind (s.find .outside), t ∈ s.outside := by
      intro t ht
      obtain ⟨ref', -, ht⟩ := Option.bind_eq_some_iff.1 ht
      exact mem_of_find ht
    obtain ⟨hchild, htarget⟩ := target_destination w.toConfig s a dest index item hchild hout
    obtain ⟨⟨ret, s''⟩, hmove, heq⟩ := Option.map_eq_some_iff.1 hstep
    obtain rfl : s'' = s' := heq
    exact internalMoveItem_spec h (mem_of_find hitem) hfresh htarget hchild hsensible hmove
  · cases hstep
    exact ⟨h, fun _ => rfl⟩

theorem MoveStep.step (h : MoveStep w s s') : Step w s s' := by
  obtain ⟨a, flags, source, dest, index, ref, toRef, count, fresh, hmove⟩ := h
  exact ⟨_, hmove⟩

theorem Step.orderly (h : Orderly w s) (hstep : Step w s s') : Orderly w s' := by
  obtain ⟨action, hok, hstep⟩ := hstep
  cases action with
  | move a flags source dest index ref toRef count fresh =>
    exact (MoveStep.fair h ⟨a, flags, source, dest, index, ref, toRef, count, fresh, hok,
      hstep⟩).1
  | appear item =>
    cases hstep
    have hadded : Orderly w (s.addThing .outside 0 item) := h.addThing_outside hok.1 hok.2
    exact hadded
  | remove flags side ref count =>
    unfold step at hstep
    dsimp only at hstep
    split at hstep
    · next item hitem =>
      split_ifs at hstep
      · cases hstep
        exact h
      · cases hstep
        exact h
      · cases hstep
        exact h.removeThing (has_of_mem_held (mem_of_find hitem))
    · cases hstep
      exact h

theorem Orderly.run (h : Orderly w s) (hrun : Relation.ReflTransGen (Step w) s s') :
    Orderly w s' := by
  induction hrun with
  | refl => exact h
  | tail _ hstep ih => exact hstep.orderly ih

end Runs

/-! ## An example -/

theorem State.forall_has {s : State} {P : TileItem → Prop}
    (h : ∀ i ∈ s.held .player ++ s.outside, P i) (i : TileItem) (hi : s.Has i) : P i := by
  refine h i (List.mem_append.2 ?_)
  rcases hi with ⟨slot, hslot⟩ | hout
  · exact .inl (List.mem_filterMap.2 ⟨slot, by cases slot <;> decide, hslot⟩)
  · exact .inr hout

/-- A sword, a shield and arrows. -/
def armouryTypes : Items where
  items id :=
    if id = 1 then { id := 1, weaponType := .sword, pickupable := true, moveable := true }
    else if id = 2 then { id := 2, weaponType := .shield, pickupable := true, moveable := true }
    else if id = 3 then
      { id := 3, weaponType := .ammo, stackable := true, pickupable := true, moveable := true }
    else {}
  reverseItemMap _ := none

def armoury : Wardrobe where
  types := armouryTypes
  classic := true
  hand id := by
    unfold armouryTypes Items.getItemType
    dsimp only
    split_ifs <;> decide
  stack id hstack := by
    by_cases h : id = 3
    · subst h
      exact ⟨rfl, by decide, by decide, rfl, rfl, rfl⟩
    · unfold armouryTypes Items.getItemType at hstack
      dsimp only at hstack
      split_ifs at hstack

def sword : TileItem := ⟨1, { cls := .item, id := 1 }⟩
def shield : TileItem := ⟨2, { cls := .item, id := 2 }⟩
def arrows : TileItem := ⟨3, { cls := .item, id := 3, count := 50 }⟩

def unarmed : State where
  inventory _ := none
  outside := [sword, shield, arrows]

theorem orderly_unarmed : Orderly armoury unarmed where
  distinct := ⟨by simp [unarmed], by decide, by simp [unarmed]⟩
  dressed := ⟨by simp [unarmed], by simp [unarmed]⟩
  limited := State.forall_has (by decide)

/-- Everything is allowed, and there is room for everything. -/
def generous : Answers where
  hasCapacity _ _ _ := true
  onPlayerEquip _ _ _ := true
  queryAdd _ _ _ _ := .noError
  queryMaxCount _ _ _ count := (.noError, count)
  containerRoom _ _ _ := 0
  containerTakes _ _ := false

/-- Put something on. -/
def putOn (s : State) (slot : Slot) (ref count : ℕ) : State :=
  (step armoury.toConfig s
    (.move generous {} .outside .player (constSlot slot) ref none count 9)).getD s

theorem moveStep_putOn {s : State} {slot : Slot} {ref count : ℕ}
    (hfresh : ∀ i ∈ s.held .player ++ s.outside, i.ref ≠ 9)
    (hsome : (step armoury.toConfig s
      (.move generous {} .outside .player (constSlot slot) ref none count 9)).isSome = true) :
    MoveStep armoury s (putOn s slot ref count) := by
  obtain ⟨s', hs'⟩ := Option.isSome_iff_exists.1 hsome
  refine ⟨generous, {}, .outside, .player, constSlot slot, ref, none, count, 9,
    ⟨rfl, nofun, State.forall_has hfresh⟩, ?_⟩
  rw [putOn, hs', Option.getD_some]

def armed : State := putOn (putOn unarmed .right 1 1) .left 2 1

def provided : State := putOn unarmed .ammo 3 30

end OTServBR.Slots
