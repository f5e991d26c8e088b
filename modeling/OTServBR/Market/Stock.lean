import OTServBR.Market.Goods

/-! # Units in stock

What taking goods out of a depot and putting goods into an inbox does to the
number of units of every ware: taking removes the amount from the items of the
depot and leaves all others alone, giving adds the amount in new items of the
inbox.
-/

namespace OTServBR

namespace Item

variable {types : Items}

@[simp] theorem count_setDefaultDuration (i : Item) : (i.setDefaultDuration types).count = i.count := by
  unfold setDefaultDuration
  dsimp only
  split_ifs <;> rfl

/-- A new item of a type that does not stack counts one. -/
theorem count_construct (cls : ItemClass) (id count : UInt16)
    (h : (types.getItemType id).stackable = false) : (construct types cls id count).count = 1 := by
  unfold construct
  rw [count_setDefaultDuration]
  simp only [h, Bool.false_eq_true, if_false]
  split_ifs <;> rfl

/-- A new stack has the count it is created with. -/
theorem count_construct_of_stackable (cls : ItemClass) {id count : UInt16}
    (h : (types.getItemType id).stackable = true)
    (hfluid : (types.getItemType id).isFluidContainer = false)
    (hsplash : (types.getItemType id).isSplash = false) (hpos : count ≠ 0) :
    (construct types cls id count).count = UInt8.ofNat count.toNat := by
  unfold construct
  rw [count_setDefaultDuration]
  simp [h, hfluid, hsplash, hpos, setItemCount]

end Item

namespace Market

variable {types : Items}

theorem IsWare.getItemType (htypes : WareTable types) {it : ItemType} (h : IsWare types it) :
    types.getItemType it.id = it := by
  obtain ⟨_, -, -, heq, hid, -⟩ := h
  have hself : ∀ spriteId, (types.getItemIdByClientId spriteId).id ≠ 0 →
      types.getItemType (types.getItemIdByClientId spriteId).id =
        types.getItemIdByClientId spriteId := by
    intro spriteId
    unfold Items.getItemIdByClientId
    split
    · next id _ =>
      intro hne
      exact congrArg types.items (htypes.own_id id hne)
    · intro hne
      exact congrArg types.items (htypes.own_id 0 hne)
  rw [heq]
  rw [heq] at hid
  exact hself _ hid

theorem IsWare.wareId_ne_zero {it : ItemType} (h : IsWare types it) : it.wareId ≠ 0 := by
  obtain ⟨_, -, -, -, -, hne⟩ := h
  exact hne

/-- An item of a ware is created under its own id, can be removed, and counts what it should. -/
theorem IsWare.createItem (htypes : WareTable types) {it : ItemType} (h : IsWare types it)
    (n : UInt16) : ∃ c, Item.createItem types it.id n = some c ∧ c.id = it.id ∧
      c.cls.canRemove = true ∧ (it.stackable = false → c.count = 1) ∧
      (it.stackable = true → n ≠ 0 → c.count = UInt8.ofNat n.toNat) := by
  have hself := h.getItemType htypes
  have hid : it.id ≠ 0 := by
    obtain ⟨_, -, -, -, hid, -⟩ := h
    exact hid
  have hplain := htypes.plain it h
  unfold Item.createItem
  rw [hself]
  dsimp only
  rw [if_neg (by simpa using htypes.not_deprecated it h), if_neg (by simpa using hid)]
  have hremove := htypes.removable it h
  split
  · next hcls =>
    rw [beq_iff_eq] at hcls
    refine ⟨_, rfl, by rw [Item.id_construct, hplain], ?_, ?_, ?_⟩
    · rw [Item.cls_construct]
      rfl
    · intro hst
      exact Item.count_construct _ _ _ (by rw [hplain, hself]; exact hst)
    · intro hst hn
      obtain ⟨-, hfluid, hsplash⟩ := htypes.stackable_plain it h hst
      have hn0 : (it.stackable && n == 0) = false := by simp [hn]
      rw [hn0, if_neg Bool.false_ne_true]
      exact Item.count_construct_of_stackable _ (by rw [hplain, hself]; exact hst)
        (by rw [hplain, hself]; exact hfluid) (by rw [hplain, hself]; exact hsplash) hn
  · next hcls =>
    refine ⟨_, rfl, Item.id_construct _ _ _, ?_, ?_, ?_⟩
    · rw [Item.cls_construct]
      exact hremove
    · intro hst
      exact Item.count_construct _ _ _ (by rw [hself]; exact hst)
    · intro hst
      exact absurd (htypes.stackable_plain it h hst).1 (by simpa using hcls)

/-- The units of a ware in an item. -/
def Obj.units (types : Items) (w : UInt16) (o : Obj) : ℕ :=
  if o.wareId types = w then o.item.getItemCount else 0

/-- How items lie in lockers and inboxes: in some container, and where they are of a ware they
can be removed and count one unless they stack. -/
structure Obj.Stored (types : Items) (o : Obj) : Prop where
  parent : o.parent.isSome
  removable : o.wareId types ≠ 0 → o.item.cls.canRemove = true
  single : o.wareId types ≠ 0 → o.item.isStackable types = false → o.item.getItemCount = 1

namespace State

def unitsStored (types : Items) (w : UInt16) (st : State) : ℕ := st.objs.sum (Obj.units types w)

/-! ## Taking -/

/-- `n` units of a ware were removed from some items of `l`. -/
structure Removed (types : Items) (st st' : State) (l : List Obj) (w : UInt16) (n : ℕ) : Prop where
  tasks : st'.databaseTasks = st.databaseTasks
  next : st'.objs.next = st.objs.next
  units : ∀ v, st'.unitsStored types v + (if v = w then n else 0) = st.unitsStored types v
  kept : ∀ o ∈ st.objs.rows, o ∉ l → o ∈ st'.objs.rows
  left : ∀ o ∈ st'.objs.rows, ∃ o' ∈ st.objs.rows, o = o' ∨
    (o'.item.isStackable types = true ∧ ∃ c, o = { o' with item := o'.item.setItemCount c })

variable {st st₁ st' : State} {l l' : List Obj} {w : UInt16} {n m : ℕ}

theorem Removed.refl : Removed types st st [] w 0 where
  tasks := rfl
  next := rfl
  units v := by rw [ite_self, Nat.add_zero]
  kept o ho _ := ho
  left o ho := ⟨o, ho, .inl rfl⟩

theorem Removed.mono (h : Removed types st st' l w n) (hsub : l ⊆ l') :
    Removed types st st' l' w n where
  tasks := h.tasks
  next := h.next
  units := h.units
  kept o ho hl := h.kept o ho fun hmem => hl (hsub hmem)
  left := h.left

theorem Removed.trans {a : Obj} (h : Removed types st st₁ [a] w n)
    (h' : Removed types st₁ st' l w m) : Removed types st st' (a :: l) w (n + m) where
  tasks := h'.tasks.trans h.tasks
  next := h'.next.trans h.next
  units v := by
    have := h.units v
    have := h'.units v
    split_ifs at * <;> omega
  kept o ho hl := by
    obtain ⟨hne, hnl⟩ := not_or.mp fun hor => hl (List.mem_cons.mpr hor)
    exact h'.kept o (h.kept o ho (by simpa using hne)) hnl
  left := by
    intro o ho
    obtain ⟨o₁, ho₁, hoo₁⟩ := h'.left o ho
    obtain ⟨o', ho', hoo'⟩ := h.left o₁ ho₁
    refine ⟨o', ho', ?_⟩
    rcases hoo₁ with rfl | ⟨hst₁, c₁, rfl⟩
    · exact hoo'
    · rcases hoo' with rfl | ⟨hst', c', rfl⟩
      · exact .inr ⟨hst₁, c₁, rfl⟩
      · exact .inr ⟨hst', c₁, rfl⟩

theorem units_without {o : Obj} (hn : n ≤ o.item.getItemCount) (v : UInt16) :
    (o.without n).units types v + (if v = o.wareId types then n else 0) = o.units types v := by
  have hcount : (o.without n).item.getItemCount = o.item.getItemCount - n := by
    have hlt : o.item.getItemCount < 256 := o.item.count.toNat_lt
    simp only [Obj.without, Item.setItemCount, Item.getItemCount, UInt8.toNat_ofNat'] at hlt ⊢
    exact Nat.mod_eq_of_lt (by omega)
  have hware : (o.without n).wareId types = o.wareId types := rfl
  rw [Obj.units, Obj.units, hcount, hware]
  split_ifs with h h' h'
  · omega
  · exact absurd h.symm h'
  · exact absurd h'.symm h
  · rfl

/-- Removing a part of a stack or a whole item takes that many units. -/
theorem removed_internalRemoveItem {o : Obj} (ho : o ∈ st.objs.rows) (hs : o.Stored types)
    (hw : o.wareId types ≠ 0) (hn : n ≤ o.item.getItemCount)
    (hsingle : o.item.isStackable types = false → n = o.item.getItemCount) :
    Removed types st (st.internalRemoveItem types o (some n)) [o] (o.wareId types) n := by
  have hremove := hs.removable hw
  have hparent := hs.parent
  have hfind := Table.find_self ho
  have hunits : ∀ v, o.units types v = if v = o.wareId types then o.item.getItemCount else 0 := by
    intro v
    simp only [Obj.units, eq_comm]
  unfold internalRemoveItem
  dsimp only [Option.getD_some]
  by_cases h0 : n = 0
  · subst h0
    rw [if_pos (by simp)]
    exact Removed.refl.mono (List.nil_subset _)
  rw [if_neg (by simp [hremove, h0, Option.isSome_iff_ne_none.mp hparent, hn])]
  by_cases hpart : o.item.isStackable types = true ∧ n ≠ o.item.getItemCount
  · obtain ⟨hst, hne⟩ := hpart
    rw [if_pos (by simp [hst, hne])]
    constructor
    · rfl
    · rfl
    · intro v
      have hpart : (o.without n).units types v + _ = o.units types v := units_without hn v
      have hsum := AutoTable.sum_modify (f := fun o => o.without n) (v := Obj.units types v)
        (fun _ => rfl) hfind
      unfold unitsStored
      dsimp only
      omega
    · intro x hx hxo
      refine (AutoTable.mem_modify (f := fun o : Obj => o.without n) fun _ => rfl).mpr ⟨x, hx, ?_⟩
      rw [if_neg fun hr => hxo (by simp [Table.eq_of_key_eq hx ho hr])]
    · intro x hx
      obtain ⟨y, hy, rfl⟩ := (AutoTable.mem_modify (f := fun o : Obj => o.without n)
        fun _ => rfl).mp hx
      refine ⟨y, hy, ?_⟩
      split
      · next hr =>
        obtain rfl := Table.eq_of_key_eq hy ho hr
        exact .inr ⟨hst, _, rfl⟩
      · exact .inl rfl
  · have hall : n = o.item.getItemCount := by
      by_contra hne
      exact hpart ⟨by_contra fun hst => hne (hsingle (by simpa using hst)), hne⟩
    rw [if_neg (by simp [hall])]
    constructor
    · rfl
    · rfl
    · intro v
      have hsum := AutoTable.sum_erase (v := Obj.units types v) hfind
      rw [hunits, ← hall] at hsum
      exact hsum
    · intro x hx hxo
      exact AutoTable.mem_erase.mpr ⟨hx, fun hr => hxo (by simp [Table.eq_of_key_eq hx ho hr])⟩
    · intro x hx
      exact ⟨x, (AutoTable.mem_erase.mp hx).1, .inl rfl⟩

/-- The units in a list of items. -/
def itemCount (l : List Obj) : ℕ := (l.map fun o => o.item.getItemCount).sum

@[simp] theorem itemCount_cons (o : Obj) (l : List Obj) :
    itemCount (o :: l) = o.item.getItemCount + itemCount l := rfl

/-- The items of a list lie in the depot and are all of one ware. -/
structure Listed (types : Items) (st : State) (l : List Obj) (w : UInt16) : Prop where
  nodup : l.Nodup
  mem : ∀ o ∈ l, o ∈ st.objs.rows
  ware : ∀ o ∈ l, o.wareId types = w

theorem Listed.tail {a : Obj} (h : Listed types st (a :: l) w) (hr : Removed types st st₁ [a] w n) :
    Listed types st₁ l w where
  nodup := (List.nodup_cons.mp h.nodup).2
  mem o ho := hr.kept o (h.mem o (by simp [ho])) (by
    rintro hmem
    obtain rfl := List.mem_singleton.mp hmem
    exact (List.nodup_cons.mp h.nodup).1 ho)
  ware o ho := h.ware o (by simp [ho])

theorem toNat_min (a b : UInt16) : (min a b).toNat = min a.toNat b.toNat := by
  change (if a ≤ b then a else b).toNat = _
  split
  · next h => rw [min_eq_left (UInt16.le_iff_toNat_le.mp h)]
  · next h => rw [min_eq_right (Nat.le_of_not_le fun h' => h (UInt16.le_iff_toNat_le.mpr h'))]

/-- What is left of a stored item is stored. -/
theorem Removed.stored (h : Removed types st st' l w n) (hs : ∀ o ∈ st.objs.rows, o.Stored types) :
    ∀ o ∈ st'.objs.rows, o.Stored types := by
  intro o ho
  obtain ⟨o', ho', rfl | ⟨hst, c, rfl⟩⟩ := h.left o ho
  · exact hs o ho'
  · have hs' := hs o' ho'
    refine ⟨hs'.parent, hs'.removable, fun _ hnot => ?_⟩
    have hsame : ({ o' with item := o'.item.setItemCount c } : Obj).item.isStackable types =
        o'.item.isStackable types := rfl
    rw [hsame, hst] at hnot
    cases hnot

/-- The loop over stacks removes the amount when the list has as much. -/
theorem removed_removeStacks (hw : w ≠ 0) {n : UInt16} (hs : ∀ o ∈ st.objs.rows, o.Stored types)
    (h : Listed types st l w) (hst : ∀ o ∈ l, o.item.isStackable types = true)
    (hn : n.toNat ≤ itemCount l) :
    Removed types st (st.removeStacks types l n) l w n.toNat := by
  induction l generalizing st n with
  | nil =>
    have h0 : n.toNat = 0 := Nat.le_zero.mp hn
    rw [h0]
    exact .refl
  | cons o l ih =>
    have hware := h.ware o (by simp)
    have ho := h.mem o (by simp)
    have hcount : o.item.getItemCount < 256 := o.item.count.toNat_lt
    have hmin : (min n (UInt16.ofNat o.item.getItemCount)).toNat =
        min n.toNat o.item.getItemCount := by
      rw [toNat_min, UInt16.toNat_ofNat', Nat.mod_eq_of_lt (by omega)]
    have hle : min n (UInt16.ofNat o.item.getItemCount) ≤ n := by
      rw [UInt16.le_iff_toNat_le, hmin]
      exact min_le_left _ _
    have hrest := UInt16.toNat_sub_of_le _ _ hle
    have hfirst : Removed types st (st.internalRemoveItem types o
        (some (min n (UInt16.ofNat o.item.getItemCount)).toNat)) [o] w
          (min n (UInt16.ofNat o.item.getItemCount)).toNat := by
      rw [← hware]
      refine removed_internalRemoveItem ho (hs o ho) (by rw [hware]; exact hw) ?_ ?_
      · rw [hmin]
        exact min_le_right _ _
      · intro hnot
        rw [hst o (by simp)] at hnot
        cases hnot
    rw [itemCount_cons] at hn
    unfold removeStacks
    dsimp only
    split
    · next hdone =>
      have h0 : (n - min n (UInt16.ofNat o.item.getItemCount)).toNat = 0 := by
        rw [beq_iff_eq.mp hdone]
        rfl
      have hall : n.toNat = (min n (UInt16.ofNat o.item.getItemCount)).toNat := by omega
      rw [hall]
      exact hfirst.mono (by simp)
    · have hmore := ih (n := n - min n (UInt16.ofNat o.item.getItemCount)) (hfirst.stored hs)
        (h.tail hfirst) (fun x hx => hst x (by simp [hx])) (by omega)
      have hsum : n.toNat = (min n (UInt16.ofNat o.item.getItemCount)).toNat +
          (n - min n (UInt16.ofNat o.item.getItemCount)).toNat := by omega
      rw [hsum]
      exact hfirst.trans hmore

/-- The loop over single items removes all of them. -/
theorem removed_removeItems (hw : w ≠ 0) (hs : ∀ o ∈ st.objs.rows, o.Stored types)
    (h : Listed types st l w) : Removed types st (st.removeItems types l) l w (itemCount l) := by
  induction l generalizing st with
  | nil => exact .refl
  | cons o l ih =>
    have hware := h.ware o (by simp)
    have ho := h.mem o (by simp)
    have hfirst : Removed types st (st.internalRemoveItem types o none) [o] w
        o.item.getItemCount := by
      rw [← hware]
      exact removed_internalRemoveItem ho (hs o ho) (by rw [hware]; exact hw) (le_refl _)
        fun _ => rfl
    exact hfirst.trans (ih (hfirst.stored hs) (h.tail hfirst))

/-! ## The list of items to take -/

/-- What `collect` returns: the items put in front of `acc`, the last of which made the count
sufficient. -/
structure Collected (types : Items) (acc items l : List Obj) (w : UInt16) (s : ℕ) : Prop where
  nodup : l.Nodup
  mem : ∀ o ∈ l, o ∈ acc ∨ o ∈ items
  ware : ∀ o ∈ l, o ∈ acc ∨ o.wareId types = w
  last : ∃ o l', l = o :: l' ∧ itemCount l' < s ∧ s ≤ itemCount l

theorem collect_spec {w s : UInt16} (hs : s.toNat ≤ 64000) {items acc : List Obj} {count : UInt16}
    (hcount : count.toNat = itemCount acc) (hacc : itemCount acc < s.toNat)
    (hnodup : (acc ++ items).Nodup) (hne : st.collect types w s items acc count ≠ []) :
    Collected types acc items (st.collect types w s items acc count) w s.toNat := by
  induction items generalizing acc count with
  | nil => exact absurd rfl hne
  | cons o items ih =>
    unfold collect at hne ⊢
    have hperm : (acc ++ o :: items).Perm (o :: acc ++ items) := List.perm_middle
    split at hne
    · next hskip =>
      rw [if_pos hskip]
      have hrest := ih hcount hacc
        (hnodup.sublist ((List.sublist_cons_self o items).append_left acc)) hne
      exact ⟨hrest.nodup, fun x hx => (hrest.mem x hx).imp_right (List.mem_cons_of_mem _),
        hrest.ware, hrest.last⟩
    · next hskip =>
      rw [if_neg hskip]
      dsimp only at hne ⊢
      have hlt : o.item.getItemCount < 256 := o.item.count.toNat_lt
      have hunits : o.item.countByType types (-1) = o.item.getItemCount := rfl
      have hcount' : (count + UInt16.ofNat (o.item.countByType types (-1))).toNat =
          itemCount (o :: acc) := by
        rw [hunits, UInt16.toNat_add, UInt16.toNat_ofNat', hcount, itemCount_cons]
        omega
      have hware : o.wareId types = w := by
        simp only [Bool.or_eq_true, Bool.not_eq_true', not_or, Obj.isMarketItem] at hskip
        have hmarket := hskip.2
        simp only [Bool.not_eq_false, Bool.and_eq_true, beq_iff_eq] at hmarket
        exact hmarket.1.1
      split at hne
      · next hdone =>
        rw [if_pos hdone]
        refine ⟨(List.nodup_append.mp (hperm.nodup_iff.mp hnodup)).1, ?_, ?_, ?_⟩
        · intro x hx
          rcases List.mem_cons.mp hx with rfl | hx
          · exact .inr (by simp)
          · exact .inl hx
        · intro x hx
          rcases List.mem_cons.mp hx with rfl | hx
          · exact .inr hware
          · exact .inl hx
        · exact ⟨o, acc, rfl, hacc, by rw [← hcount']; exact UInt16.le_iff_toNat_le.mp hdone⟩
      · next hmore =>
        rw [if_neg hmore]
        have hlt' : itemCount (o :: acc) < s.toNat := by
          rw [← hcount']
          exact Nat.lt_of_not_le fun hle => hmore (UInt16.le_iff_toNat_le.mpr hle)
        have hrest := ih hcount' hlt' (hperm.nodup_iff.mp hnodup) hne
        refine ⟨hrest.nodup, fun x hx => ?_, fun x hx => ?_, hrest.last⟩
        · rcases hrest.mem x hx with hx | hx
          · rcases List.mem_cons.mp hx with rfl | hx
            · exact .inr (by simp)
            · exact .inl hx
          · exact .inr (List.mem_cons_of_mem _ hx)
        · rcases hrest.ware x hx with hx | hx
          · rcases List.mem_cons.mp hx with rfl | hx
            · exact .inr hware
            · exact .inl hx
          · exact .inr hx

/-- The walk through a locker lists every item at most once, and it does not stop early. -/
theorem depotItems_nodup {locker : ℕ} (h : ∀ o ∈ st.objs.rows, o.ref ≠ locker) :
    (st.depotItems locker).Nodup :=
  (Walk.walk_nodup st.objs.nodup h _).of_map

theorem depotItems_eq {locker : ℕ} (h : ∀ o ∈ st.objs.rows, o.ref ≠ locker) {fuel : ℕ}
    (hfuel : st.objs.rows.length + 1 ≤ fuel) :
    Walk.walk Obj.ref Obj.parent st.opens st.objs.rows fuel [locker] = st.depotItems locker :=
  Walk.walk_eq_of_le st.objs.nodup h hfuel

/-- Taking items of a ware removes the amount from the items of the depot. -/
theorem removed_takeItems (htypes : WareTable types) (hs : ∀ o ∈ st.objs.rows, o.Stored types)
    {it : ItemType} (hit : IsWare types it) {amount : UInt16} (hpos : amount ≠ 0)
    (hmax : amount ≤ 64000) {locker : ℕ} (hlocker : ∀ o ∈ st.objs.rows, o.ref ≠ locker)
    (h : st.takeItems types it amount locker = some st') :
    Removed types st st' (st.depotItems locker) it.wareId amount.toNat := by
  have hw := hit.wareId_ne_zero
  have hposNat : 0 < amount.toNat := by
    rcases Nat.eq_zero_or_pos amount.toNat with h0 | h0
    · exact absurd (UInt16.toNat_inj.mp h0) hpos
    · exact h0
  unfold takeItems at h
  dsimp only at h
  split at h
  · cases h
  · next hne =>
    rw [List.isEmpty_iff] at hne
    have hcol : Collected types [] (st.depotItems locker)
        (st.getMarketItemList types it.wareId amount locker) it.wareId amount.toNat :=
      collect_spec (UInt16.le_iff_toNat_le.mp hmax) rfl hposNat (depotItems_nodup hlocker) hne
    have hsub : st.getMarketItemList types it.wareId amount locker ⊆ st.depotItems locker :=
      fun o ho => (hcol.mem o ho).resolve_left (by simp)
    have hlist : Listed types st (st.getMarketItemList types it.wareId amount locker) it.wareId :=
      ⟨hcol.nodup, fun o ho => Walk.mem_of_mem_walk (hsub ho),
        fun o ho => (hcol.ware o ho).resolve_left (by simp)⟩
    obtain ⟨o, l', hl, hlt, hle⟩ := hcol.last
    have hstack : ∀ o ∈ st.getMarketItemList types it.wareId amount locker,
        o.item.isStackable types = it.stackable := fun o ho =>
      htypes.stackable_eq it hit o.item.id (hlist.ware o ho)
    split at h
    · next hst =>
      obtain rfl := Option.some.inj h
      exact (removed_removeStacks hw hs hlist (fun o ho => (hstack o ho).trans hst) hle).mono hsub
    · next hst =>
      obtain rfl := Option.some.inj h
      have hone : o.item.getItemCount = 1 := by
        have ho : o ∈ st.getMarketItemList types it.wareId amount locker := by simp [hl]
        refine (hs o (hlist.mem o ho)).single (by rw [hlist.ware o ho]; exact hw) ?_
        rw [hstack o ho]
        simpa using hst
      have hexact : itemCount (st.getMarketItemList types it.wareId amount locker) =
          amount.toNat := by
        rw [hl, itemCount_cons] at hle ⊢
        omega
      rw [← hexact]
      exact (removed_removeItems hw hs hlist).mono hsub

/-! ## Giving -/

/-- `n` units of a ware were added to an inbox as new items of a type. -/
structure Added (types : Items) (st st' : State) (it : ItemType) (inbox n : ℕ) : Prop where
  tasks : st'.databaseTasks = st.databaseTasks
  next : st.objs.next ≤ st'.objs.next
  units : ∀ v, st'.unitsStored types v = st.unitsStored types v + if v = it.wareId then n else 0
  kept : ∀ o ∈ st.objs.rows, o ∈ st'.objs.rows
  fresh : ∀ o ∈ st'.objs.rows, o ∈ st.objs.rows ∨ (st.objs.next ≤ o.ref ∧ o.parent = some inbox ∧
    o.Stored types ∧ ∃ count, Item.createItem types it.id count = some o.item)

variable {it : ItemType} {inbox : ℕ}

theorem Added.refl : Added types st st it inbox 0 where
  tasks := rfl
  next := le_refl _
  units v := by rw [ite_self, Nat.add_zero]
  kept o ho := ho
  fresh o ho := .inl ho

theorem Added.trans (h : Added types st st₁ it inbox n) (h' : Added types st₁ st' it inbox m) :
    Added types st st' it inbox (n + m) where
  tasks := h'.tasks.trans h.tasks
  next := h.next.trans h'.next
  units v := by
    rw [h'.units, h.units]
    split_ifs <;> omega
  kept o ho := h'.kept o (h.kept o ho)
  fresh o ho := by
    rcases h'.fresh o ho with ho | ⟨hnext, hnew⟩
    · exact h.fresh o ho
    · exact .inr ⟨h.next.trans hnext, hnew⟩

variable (st inbox) in
theorem added_addToInbox {item : Item} {count : UInt16}
    (hcreate : Item.createItem types it.id count = some item) (hid : item.id = it.id)
    (hself : types.getItemType it.id = it) (hremove : item.cls.canRemove = true)
    (hsingle : it.stackable = false → item.getItemCount = 1) :
    Added types st (st.addToInbox types inbox item) it inbox item.getItemCount := by
  have hware : (types.getItemType item.id).wareId = it.wareId := by rw [hid, hself]
  constructor
  · rfl
  · exact Nat.le_succ _
  · intro v
    have hsum : (st.addToInbox types inbox item).unitsStored types v = (if
        (types.getItemType item.id).wareId = v then item.getItemCount else 0) +
          st.unitsStored types v := AutoTable.sum_insert
    rw [hsum, hware, add_comm]
    simp only [eq_comm]
  · exact fun o ho => AutoTable.mem_insert.mpr (.inr ho)
  · intro o ho
    rcases AutoTable.mem_insert.mp ho with rfl | ho
    · refine .inr ⟨le_refl _, rfl, ⟨rfl, fun _ => hremove, fun _ hst => hsingle ?_⟩, count, hcreate⟩
      have hst' : (types.getItemType item.id).stackable = false := hst
      rwa [hid, hself] at hst'
    · exact .inl ho

/-- The loop over stacks adds the amount. -/
theorem added_giveStacks (htypes : WareTable types) (hit : IsWare types it)
    (hst : it.stackable = true) {fuel : ℕ} {amount : UInt16} (hfuel : amount.toNat ≤ fuel) :
    Added types st (st.giveStacks types it.id inbox fuel amount) it inbox amount.toNat := by
  induction fuel generalizing st amount with
  | zero =>
    rw [Nat.le_zero.mp hfuel]
    exact .refl
  | succ fuel ih =>
    unfold giveStacks
    split
    · next h0 =>
      rw [beq_iff_eq.mp h0]
      exact .refl
    · next h0 =>
      have hpos : amount.toNat ≠ 0 := fun h => h0 (by simpa using UInt16.toNat_inj.mp h)
      have hmin : (min 100 amount).toNat = min 100 amount.toNat := toNat_min 100 amount
      have hle : min 100 amount ≤ amount := by
        rw [UInt16.le_iff_toNat_le, hmin]
        exact min_le_right _ _
      have hrest := UInt16.toNat_sub_of_le _ _ hle
      have hstack : min 100 amount ≠ 0 := by
        intro h
        have := congrArg UInt16.toNat h
        rw [hmin, UInt16.toNat_zero] at this
        omega
      obtain ⟨c, hc, hid, hremove, -, hcount⟩ := hit.createItem htypes (min 100 amount)
      have hunits : c.getItemCount = (min 100 amount).toNat := by
        rw [Item.getItemCount, hcount hst hstack, UInt8.toNat_ofNat']
        exact Nat.mod_eq_of_lt (by omega)
      dsimp only
      rw [hc]
      have hfirst := added_addToInbox st inbox hc hid
        (hit.getItemType htypes) hremove (by rw [hst]; rintro ⟨⟩)
      have hmore : Added types (st.addToInbox types inbox c) _ it inbox
          (amount - min 100 amount).toNat := ih (by omega)
      have hsum : amount.toNat = c.getItemCount + (amount - min 100 amount).toNat := by omega
      rw [hsum]
      exact hfirst.trans hmore

/-- The loop over single items adds as many. -/
theorem added_giveUnits (htypes : WareTable types) (hit : IsWare types it)
    (hst : it.stackable = false) (subType : UInt16) (n : ℕ) :
    Added types st (st.giveUnits types it.id inbox subType n) it inbox n := by
  induction n generalizing st with
  | zero => exact .refl
  | succ n ih =>
    obtain ⟨c, hc, hid, hremove, hcount, -⟩ := hit.createItem htypes subType
    have hone : c.getItemCount = 1 := by
      rw [Item.getItemCount, hcount hst]
      rfl
    unfold giveUnits
    rw [hc]
    have hfirst := added_addToInbox st inbox hc hid (hit.getItemType htypes)
      hremove fun _ => hone
    rw [hone] at hfirst
    rw [Nat.add_comm]
    exact hfirst.trans ih

variable (st inbox) in
/-- Giving items of a ware adds the amount to the inbox. -/
theorem added_giveItems (htypes : WareTable types) (hit : IsWare types it) (amount : UInt16) :
    Added types st (st.giveItems types it amount inbox) it inbox amount.toNat := by
  unfold giveItems
  split
  · next hst => exact added_giveStacks htypes hit hst (le_refl _)
  · next hst => exact added_giveUnits htypes hit (by simpa using hst) _ _

end State

end Market

end OTServBR
