import Mathlib.Algebra.Group.Basic
import Mathlib.Data.Int.Basic
import Mathlib.Data.List.Nodup
import Mathlib.Data.List.Perm.Basic
import Mathlib.Tactic.Ring
import OTServBR.Tile.Basic

/-! # Indices of things

The counter of a tile's item vector always splits it into the items that are
not always on top and the items that are. Then the index of a thing, computed
along the order in which things are shown, finds the thing again, and the
indices below the last one list every thing once.
-/

namespace OTServBR

namespace TileItemVector

/-- The counter splits a vector into two segments. -/
structure Splits (v : TileItemVector) (down top : List TileItem) : Prop where
  items : v.items = down ++ top
  count : v.downItemCount = down.length

variable {v : TileItemVector} {down top : List TileItem} {i : TileItem} {ref : ℕ}

theorem splits_of_le (h : v.downItemCount ≤ v.items.length) : v.Splits v.downItems v.topItems := by
  constructor
  · exact (List.take_append_drop _ _).symm
  · rw [downItems, List.length_take, min_eq_left h]

namespace Splits

variable (h : v.Splits down top)

include h

theorem le : v.downItemCount ≤ v.items.length := by
  rw [h.items, h.count, List.length_append]
  exact Nat.le_add_right _ _

theorem downItems_eq : v.downItems = down := by
  rw [downItems, h.items, h.count, List.take_left]

theorem topItems_eq : v.topItems = top := by
  rw [topItems, h.items, h.count, List.drop_left]

theorem getTopItemCount_eq : v.getTopItemCount = top.length := by
  rw [getTopItemCount, h.items, h.count, List.length_append, Nat.add_sub_cancel_left]

theorem insertDown (i : TileItem) : (v.insertDown i).Splits (i :: down) top := by
  constructor
  · rw [TileItemVector.insertDown, h.items, List.cons_append]
  · rw [TileItemVector.insertDown, h.count, List.length_cons]

theorem insertTop (p : TileItem → Bool) (i : TileItem) :
    (v.insertTop p i).Splits down (insertBefore p i top) := by
  constructor
  · rw [TileItemVector.insertTop, h.downItems_eq, h.topItems_eq]
  · exact h.count

theorem eraseTop (ref : ℕ) : (v.eraseTop ref).Splits down (top.eraseP (·.ref == ref)) := by
  constructor
  · rw [TileItemVector.eraseTop, h.downItems_eq, h.topItems_eq]
  · exact h.count

theorem eraseDown (hmem : ∃ i ∈ down, i.ref = ref) :
    (v.eraseDown ref).Splits (down.eraseP (·.ref == ref)) top := by
  constructor
  · rw [TileItemVector.eraseDown, h.downItems_eq, h.topItems_eq]
  · obtain ⟨i, hi, hr⟩ := hmem
    rw [TileItemVector.eraseDown, h.count, List.length_eraseP_of_mem hi (by simpa using hr)]

theorem modify (ref : ℕ) (f : Item → Item) :
    (v.modify ref f).Splits
      (down.map fun i => if i.ref == ref then { i with item := f i.item } else i)
      (top.map fun i => if i.ref == ref then { i with item := f i.item } else i) := by
  constructor
  · rw [TileItemVector.modify, h.items, List.map_append]
  · rw [List.length_map]
    exact h.count

end Splits

theorem insertBefore_perm (p : TileItem → Bool) (i : TileItem) (l : List TileItem) :
    (insertBefore p i l).Perm (i :: l) := by
  induction l with
  | nil => exact .refl _
  | cons j l ih =>
    unfold insertBefore
    split
    · exact .refl _
    · exact (ih.cons j).trans (.swap i j l)

end TileItemVector

namespace Tile

open TileItemVector

variable {types : Items} {t : Tile} {i : TileItem}

/-! ## Finding things -/

theorem scan_eq {α : Type} (p : α → Bool) (l : List α) (n : ℤ) :
    scan p l n = if l.any p then (n + l.findIdx p + 1, true) else (n + l.length, false) := by
  induction l generalizing n with
  | nil => simp [scan]
  | cons a l ih =>
    rw [scan]
    by_cases ha : p a = true
    · simp [ha, List.findIdx_cons]
    · have hcons : (a :: l).findIdx p = l.findIdx p + 1 := by
        rw [List.findIdx_cons]
        simp [ha]
      rw [if_neg ha, ih, hcons, List.any_cons, List.length_cons]
      simp only [ha, Bool.false_or]
      split <;> simp only [Prod.mk.injEq, and_true] <;> omega

/-- In a list without repeated keys the search for a key stops at its element. -/
theorem scan_of_mem {α κ : Type} [DecidableEq κ] {key : α → κ} {l : List α}
    (hnd : (l.map key).Nodup) {a : α} (ha : a ∈ l) (n : ℤ) :
    ∃ k : ℕ, scan (key · == key a) l n = (n + 1 + k, true) ∧ l[k]? = some a := by
  have hex : ∃ b ∈ l, (key b == key a) = true := ⟨a, ha, by simp⟩
  have hlt := List.findIdx_lt_length_of_exists hex
  have hkey : key l[l.findIdx (key · == key a)] = key a := by
    simpa using List.findIdx_getElem (w := hlt)
  refine ⟨l.findIdx (key · == key a), ?_, ?_⟩
  · rw [scan_eq, if_pos (List.any_eq_true.2 hex), add_right_comm]
  · rw [List.getElem?_eq_getElem hlt]
    exact congrArg some (List.inj_on_of_nodup_map hnd (List.getElem_mem hlt) ha hkey)

/-- Where the counter splits the vector, the things behind the ground are indexed in order. -/
theorem thingBehind_eq {down top : List TileItem} (h : t.items.Splits down top) (n : ℕ) :
    t.thingBehind n = t.thingsBehind[n]? := by
  unfold thingBehind thingsBehind
  rw [h.topItems_eq, h.downItems_eq, h.getTopItemCount_eq, h.count, h.items]
  dsimp only
  by_cases htop : n < top.length
  · have hget : (down ++ top)[down.length + n]? = top[n]? := by
      rw [List.getElem?_append_right (Nat.le_add_right _ _), Nat.add_sub_cancel_left]
    rw [if_pos htop, hget, List.getElem?_append_left (by rwa [List.length_map]), List.getElem?_map]
  · have htop' : (top.map Thing.item).length ≤ n := by rw [List.length_map]; omega
    rw [if_neg htop, List.getElem?_append_right htop', List.length_map]
    by_cases hcre : n - top.length < t.creatures.length
    · rw [if_pos hcre, List.getElem?_append_left (by rwa [List.length_map]), List.getElem?_map]
    · have hcre' : (t.creatures.map Thing.creature).length ≤ n - top.length := by
        rw [List.length_map]; omega
      rw [if_neg hcre, List.getElem?_append_right hcre', List.length_map, List.getElem?_map]
      split
      · next hdown => rw [List.getElem?_append_left hdown]
      · next hdown => rw [List.getElem?_eq_none (by omega)]; rfl

/-- The position that `replaceThing` reaches is the one that `getThing` reads. -/
theorem thingBehind_of_replacePosition {pos p : ℕ} (hp : t.replacePosition pos = some p)
    (hi : t.items.items[p]? = some i) : t.thingBehind pos = some (.item i) := by
  unfold replacePosition at hp
  unfold thingBehind
  dsimp only at hp ⊢
  split at hp
  · next htop =>
    obtain rfl := Option.some.inj hp
    rw [if_pos htop, hi]
    rfl
  next htop =>
  split at hp
  · cases hp
  next hcreatures =>
  split at hp
  · next hdown =>
    obtain rfl := Option.some.inj hp
    rw [if_neg htop, if_neg hcreatures, if_pos hdown, hi]
    rfl
  · cases hp

theorem getThing_eq (h : t.items.downItemCount ≤ t.items.items.length) (n : ℕ) :
    t.getThing n = t.things[n]? := by
  unfold getThing things
  cases t.ground with
  | none => exact thingBehind_eq (splits_of_le h) n
  | some g =>
    cases n with
    | zero => rfl
    | succ n => exact thingBehind_eq (splits_of_le h) n

theorem length_things (h : t.items.downItemCount ≤ t.items.items.length) :
    t.things.length = t.getLastIndex := by
  simp only [things, thingsBehind, getLastIndex, getThingCount, TileItemVector.size,
    List.length_append,
    List.length_map, topItems, downItems, List.length_drop, List.length_take]
  omega

/-- The indices below the last one list the things in order. -/
theorem map_getThing_range (h : t.items.downItemCount ≤ t.items.items.length) :
    (List.range t.getLastIndex).map t.getThing = t.things.map some := by
  rw [← length_things h]
  refine List.ext_getElem? fun n => ?_
  rw [List.getElem?_map, List.getElem?_map]
  by_cases hn : n < t.things.length
  · rw [List.getElem?_range hn, Option.map_some, getThing_eq h, List.getElem?_eq_getElem hn]
    rfl
  · rw [List.getElem?_eq_none (by simpa using hn), List.getElem?_eq_none (by omega)]
    rfl

theorem allItems_modifyItem (ref : ℕ) (f : Item → Item) :
    (t.modifyItem ref f).allItems =
      t.allItems.map fun i => if i.ref == ref then { i with item := f i.item } else i := by
  unfold modifyItem allItems TileItemVector.modify
  rw [List.map_append]
  cases t.ground with
  | none => rfl
  | some g => rfl

theorem refs_modifyItem (ref : ℕ) (f : Item → Item) :
    (t.modifyItem ref f).allItems.map (·.ref) = t.allItems.map (·.ref) := by
  rw [allItems_modifyItem, List.map_map]
  refine List.map_congr_left fun i _ => ?_
  rw [Function.comp_apply]
  split <;> rfl

/-- A change of an item that is not the ground is one of the vector. -/
theorem modifyItem_of_ground {ref : ℕ} {f : Item → Item}
    (hground : t.ground.map (·.ref) ≠ some ref) :
    t.modifyItem ref f = { t with items := t.items.modify ref f } := by
  have hg : (t.ground.map fun g => if g.ref == ref then { g with item := f g.item } else g) =
      t.ground := by
    cases hcase : t.ground with
    | none => rfl
    | some g =>
      rw [hcase] at hground
      have hne : g.ref ≠ ref := fun heq => hground (congrArg some heq)
      simp [hne]
  rw [modifyItem, hg]

/-- A property of all elements survives an element put in the place of another one. -/
theorem forall_mem_set {α : Type} {c : α → Prop} {l : List α} {p : ℕ} {b : α}
    (hl : ∀ x ∈ l, c x) (hb : ∀ a, l[p]? = some a → c a → c b) : ∀ x ∈ l.set p b, c x := by
  intro x hx
  by_cases hp : p < l.length
  · rcases List.mem_or_eq_of_mem_set hx with hx | rfl
    · exact hl x hx
    · exact hb _ (List.getElem?_eq_getElem hp) (hl _ (List.getElem_mem hp))
  · rw [List.set_eq_of_length_le (not_lt.1 hp)] at hx
    exact hl x hx

/-- The things of a tile are its items and its creatures. -/
theorem things_perm : t.things.Perm (t.allItems.map .item ++ t.creatures.map .creature) := by
  have hitems : t.items.downItems ++ t.items.topItems = t.items.items := List.take_append_drop _ _
  unfold things thingsBehind allItems
  rw [← hitems, List.map_append, List.map_append, List.append_assoc, List.append_assoc]
  refine List.Perm.append_left _ ?_
  rw [← List.append_assoc]
  refine List.perm_append_comm.trans (List.Perm.append_left _ ?_)
  exact .refl _

theorem mem_things_item : .item i ∈ t.things ↔ i ∈ t.allItems := by
  simp [things_perm.mem_iff]

theorem addresses_perm : (t.things.map Thing.address).Perm
    ((t.allItems.map (·.ref)).map .inr ++ t.creatures.map .inl) := by
  have h := (things_perm (t := t)).map Thing.address
  rw [List.map_append, List.map_map, List.map_map] at h
  rw [List.map_map]
  exact h

theorem inr_mem_addresses {r : ℕ} :
    .inr r ∈ t.things.map Thing.address ↔ r ∈ t.allItems.map (·.ref) := by
  rw [addresses_perm.mem_iff]
  simp

theorem inl_mem_addresses {id : ℕ} :
    .inl id ∈ t.things.map Thing.address ↔ id ∈ t.creatures := by
  rw [addresses_perm.mem_iff]
  simp

/-- What holds of a tile between two operations. The segments hold the items of their class where
operations keep it. -/
structure Indexed (types : Items) (kept : Prop) (t : Tile) : Prop where
  le : t.items.downItemCount ≤ t.items.items.length
  refs : (t.allItems.map (·.ref)).Nodup
  creatures : t.creatures.Nodup
  down : kept → ∀ i ∈ t.items.downItems, i.item.isAlwaysOnTop types = false
  top : kept → ∀ i ∈ t.items.topItems, i.item.isAlwaysOnTop types = true

variable {kept : Prop}

theorem indexed_empty (flags : TileFlags) : Indexed types kept { flags := flags } := by
  constructor <;> simp [allItems, downItems, topItems]

namespace Indexed

variable (h : Indexed types kept t)

include h

theorem splits : t.items.Splits t.items.downItems t.items.topItems := splits_of_le h.le

theorem nodup : (t.things.map Thing.address).Nodup := by
  rw [addresses_perm.nodup_iff]
  refine List.Nodup.append (h.refs.map Sum.inr_injective) (h.creatures.map Sum.inl_injective) ?_
  intro a ha hb
  obtain ⟨r, -, rfl⟩ := List.mem_map.1 ha
  obtain ⟨id, -, hid⟩ := List.mem_map.1 hb
  exact Sum.inl_ne_inr hid

theorem mem_allItems : i ∈ t.allItems ↔
    i ∈ t.ground.toList ∨ i ∈ t.items.downItems ∨ i ∈ t.items.topItems := by
  rw [allItems, h.splits.items, List.mem_append, List.mem_append, h.splits.downItems_eq,
    h.splits.topItems_eq]

theorem withFlags (flags : TileFlags) : Indexed types kept { t with flags := flags } := by
  constructor
  · exact h.le
  · exact h.refs
  · exact h.creatures
  · exact h.down
  · exact h.top

theorem setFlagsOf (i : TileItem) : Indexed types kept (t.setFlagsOf types i) := h.withFlags _

theorem resetFlagsOf (i : TileItem) : Indexed types kept (t.resetFlagsOf types i) := h.withFlags _

/-! ### Changes of the parts of a tile -/

theorem removeGround : Indexed types kept { t with ground := none } := by
  constructor
  · exact h.le
  · exact h.refs.sublist ((List.sublist_append_right _ _).map _)
  · exact h.creatures
  · exact h.down
  · exact h.top

theorem setGround (hnew : i.ref ∉ t.allItems.map (·.ref)) :
    Indexed types kept { t with ground := some i } := by
  constructor
  · exact h.le
  · have hrest := h.refs.sublist ((List.sublist_append_right t.ground.toList _).map (·.ref))
    refine List.nodup_cons.2 ⟨fun hmem => hnew ?_, hrest⟩
    exact ((List.sublist_append_right _ _).map _).subset hmem
  · exact h.creatures
  · exact h.down
  · exact h.top

/-- A vector that loses items keeps the addresses apart. -/
theorem refs_of_sublist {l : List TileItem} (hl : l.Sublist t.items.items) :
    ((t.ground.toList ++ l).map (·.ref)).Nodup :=
  h.refs.sublist ((hl.append_left _).map _)

/-- A vector that gets a new item, and may lose others, keeps the addresses apart. -/
theorem refs_of_perm {l rest : List TileItem} (hl : l.Perm (i :: rest))
    (hrest : rest.Sublist t.items.items) (hnew : i.ref ∉ t.allItems.map (·.ref)) :
    ((t.ground.toList ++ l).map (·.ref)).Nodup := by
  have hperm : (t.ground.toList ++ l).Perm (i :: (t.ground.toList ++ rest)) :=
    (hl.append_left _).trans List.perm_middle
  rw [(hperm.map _).nodup_iff, List.map_cons, List.nodup_cons]
  have hsub := (hrest.append_left t.ground.toList).map (·.ref)
  exact ⟨fun hmem => hnew (hsub.subset hmem), h.refs.sublist hsub⟩

theorem insertDown (hnew : i.ref ∉ t.allItems.map (·.ref))
    (hcls : kept → i.item.isAlwaysOnTop types = false) :
    Indexed types kept { t with items := t.items.insertDown i } := by
  have hsplits := h.splits.insertDown i
  constructor
  · exact hsplits.le
  · exact h.refs_of_perm (.refl _) (.refl _) hnew
  · exact h.creatures
  · rw [hsplits.downItems_eq]
    intro hk j hj
    rcases List.mem_cons.1 hj with rfl | hj
    · exact hcls hk
    · exact h.down hk j hj
  · rw [hsplits.topItems_eq]
    exact h.top

theorem insertTop (p : TileItem → Bool) (hnew : i.ref ∉ t.allItems.map (·.ref))
    (hcls : kept → i.item.isAlwaysOnTop types = true) :
    Indexed types kept { t with items := t.items.insertTop p i } := by
  have hsplits := h.splits.insertTop p i
  have hperm := insertBefore_perm p i t.items.topItems
  constructor
  · exact hsplits.le
  · refine h.refs_of_perm ?_ (List.Sublist.refl t.items.items) hnew
    rw [hsplits.items, h.splits.items, h.splits.downItems_eq, h.splits.topItems_eq]
    exact (hperm.append_left _).trans List.perm_middle
  · exact h.creatures
  · rw [hsplits.downItems_eq]
    exact h.down
  · rw [hsplits.topItems_eq]
    intro hk j hj
    rcases List.mem_cons.1 (hperm.subset hj) with rfl | hj
    · exact hcls hk
    · exact h.top hk j hj

theorem eraseTop (ref : ℕ) : Indexed types kept { t with items := t.items.eraseTop ref } := by
  have hsplits := h.splits.eraseTop ref
  constructor
  · exact hsplits.le
  · refine h.refs_of_sublist ?_
    rw [hsplits.items, h.splits.items, h.splits.downItems_eq, h.splits.topItems_eq]
    exact List.eraseP_sublist.append_left _
  · exact h.creatures
  · rw [hsplits.downItems_eq]
    exact h.down
  · rw [hsplits.topItems_eq]
    exact fun hk j hj => h.top hk j (List.mem_of_mem_eraseP hj)

theorem eraseDown (hi : i ∈ t.items.downItems) :
    Indexed types kept { t with items := t.items.eraseDown i.ref } := by
  have hsplits := h.splits.eraseDown ⟨i, hi, rfl⟩
  constructor
  · exact hsplits.le
  · refine h.refs_of_sublist ?_
    rw [hsplits.items, h.splits.items, h.splits.downItems_eq, h.splits.topItems_eq]
    exact List.eraseP_sublist.append_right _
  · exact h.creatures
  · rw [hsplits.downItems_eq]
    exact fun hk j hj => h.down hk j (List.mem_of_mem_eraseP hj)
  · rw [hsplits.topItems_eq]
    exact h.top

/-- A change of an item in place that keeps its class. -/
theorem modifyItem (ref : ℕ) (f : Item → Item) (hf : kept → ∀ j ∈ t.allItems, j.ref = ref →
      (f j.item).isAlwaysOnTop types = j.item.isAlwaysOnTop types) :
    Indexed types kept (t.modifyItem ref f) := by
  have hsplits := h.splits.modify ref f
  have hcls : ∀ {c : Bool} {l : List TileItem}, (∀ j ∈ l, j ∈ t.allItems) → kept →
      (∀ j ∈ l, j.item.isAlwaysOnTop types = c) → ∀ j ∈ l.map fun j =>
        if j.ref == ref then { j with item := f j.item } else j, j.item.isAlwaysOnTop types = c := by
    intro c l hl hk hc j hj
    obtain ⟨old, hold, rfl⟩ := List.mem_map.1 hj
    split
    · next heq => exact (hf hk old (hl old hold) (by simpa using heq)).trans (hc old hold)
    · exact hc old hold
  constructor
  · exact hsplits.le
  · rw [refs_modifyItem]
    exact h.refs
  · exact h.creatures
  · intro hk
    rw [Tile.modifyItem, hsplits.downItems_eq]
    exact hcls (fun j hj => h.mem_allItems.2 (.inr (.inl hj))) hk (h.down hk)
  · intro hk
    rw [Tile.modifyItem, hsplits.topItems_eq]
    exact hcls (fun j hj => h.mem_allItems.2 (.inr (.inr hj))) hk (h.top hk)

/-- An item put in the place of another one of its class. -/
theorem setItem {p : ℕ} {old : TileItem} (hp : t.items.items[p]? = some old)
    (hnew : i.ref ∉ t.allItems.map (·.ref))
    (hcls : kept → i.item.isAlwaysOnTop types = old.item.isAlwaysOnTop types) :
    Indexed types kept { t with items := { t.items with items := t.items.items.set p i } } := by
  have hlt := (List.getElem?_eq_some_iff.1 hp).1
  constructor
  · rw [List.length_set]
    exact h.le
  · exact h.refs_of_perm (List.set_perm_cons_eraseIdx hlt i) (List.eraseIdx_sublist _ _) hnew
  · exact h.creatures
  · intro hk
    rw [downItems, List.take_set]
    refine forall_mem_set (h.down hk) fun a ha hc => ?_
    have hat : t.items.items[p]? = some a := by
      rw [List.getElem?_take] at ha
      exact (Option.ite_none_right_eq_some.1 ha).2
    obtain rfl : old = a := Option.some.inj (hp.symm.trans hat)
    exact (hcls hk).trans hc
  · intro hk
    rw [topItems, List.drop_set]
    split
    · exact h.top hk
    · next hcount =>
      refine forall_mem_set (h.top hk) fun a ha hc => ?_
      have hat : t.items.items[p]? = some a := by
        rwa [List.getElem?_drop, Nat.add_sub_cancel' (not_lt.1 hcount)] at ha
      obtain rfl : old = a := Option.some.inj (hp.symm.trans hat)
      exact (hcls hk).trans hc

theorem consCreature {id : ℕ} (hnew : id ∉ t.creatures) :
    Indexed types kept { t with creatures := id :: t.creatures } := by
  constructor
  · exact h.le
  · exact h.refs
  · exact List.nodup_cons.2 ⟨hnew, h.creatures⟩
  · exact h.down
  · exact h.top

theorem eraseCreature (id : ℕ) :
    Indexed types kept { t with creatures := t.creatures.erase id } := by
  constructor
  · exact h.le
  · exact h.refs
  · exact h.creatures.erase id
  · exact h.down
  · exact h.top

end Indexed

/-! ## Operations -/

/-- A search that succeeds has found the address in the segment of the class. -/
theorem exists_of_scanThings {n : ℤ} (h : t.scanThings types (.item i) n ≠ -1) :
    ∃ j ∈ if i.item.isAlwaysOnTop types then t.items.topItems else t.items.downItems,
      j.ref = i.ref := by
  unfold scanThings at h
  simp only [scan_eq] at h
  split at h
  · next htop =>
    rw [if_pos htop]
    by_cases hany : (t.items.topItems.any fun x => x.ref == i.ref) = true
    · simpa using hany
    · simp [hany] at h
  · next htop =>
    rw [if_neg htop]
    by_cases hany : (t.items.downItems.any fun x => x.ref == i.ref) = true
    · simpa using hany
    · simp [hany] at h

theorem exists_of_getThingIndex (h : t.getThingIndex types (.item i) ≠ -1)
    (hground : (t.ground.map (·.ref)) ≠ some i.ref) :
    ∃ j ∈ if i.item.isAlwaysOnTop types then t.items.topItems else t.items.downItems,
      j.ref = i.ref := by
  unfold getThingIndex at h
  cases hg : t.ground with
  | none =>
    rw [hg] at h
    exact exists_of_scanThings h
  | some g =>
    rw [hg] at h hground
    have hne : (Thing.item i).address ≠ .inr g.ref := by
      intro heq
      exact hground (congrArg some (Sum.inr.inj heq).symm)
    dsimp only at h
    rw [if_neg hne] at h
    exact exists_of_scanThings h

theorem isAlwaysOnTop_updated (itemId : UInt16) (count : UInt32) (j : Item) :
    (updated types itemId count j).isAlwaysOnTop types =
      (types.getItemType itemId).alwaysOnTop := by
  have hid : (updated types itemId count j).id = itemId := by
    unfold updated Item.setSubType Item.setID
    simp only [Item.setFluidType, Item.setCharges, Item.setItemCount, Item.setIntAttr,
      Item.setDecaying, Item.setDuration, Item.removeAttribute, apply_ite Item.id, ite_self]
  rw [Item.isAlwaysOnTop, Item.getType, hid]

/-- An item that leaves a tile brings no other one. -/
theorem refs_removeItem (i : TileItem) (count : UInt32) :
    (t.removeItem types i count).allItems.map (·.ref) ⊆ t.allItems.map (·.ref) := by
  have hitems : t.items.downItems ++ t.items.topItems = t.items.items := List.take_append_drop _ _
  unfold removeItem
  split
  · exact List.Subset.refl _
  split
  · exact ((List.sublist_append_right _ _).map _).subset
  next hground =>
  dsimp only
  split
  · refine (((List.Sublist.append_left ?_ t.ground.toList)).map _).subset
    rw [← hitems]
    exact List.eraseP_sublist.append_left _
  split
  · rw [← modifyItem_of_ground hground, refs_modifyItem]
    exact List.Subset.refl _
  · refine (((List.Sublist.append_left ?_ t.ground.toList)).map _).subset
    rw [← hitems]
    exact List.eraseP_sublist.append_right _

namespace Indexed

variable (h : Indexed types kept t)

include h

theorem removeItem (i : TileItem) (count : UInt32) :
    Indexed types kept (t.removeItem types i count) := by
  unfold Tile.removeItem
  split
  · exact h
  next hindex =>
  split
  · exact h.removeGround.resetFlagsOf i
  next hground =>
  obtain ⟨j, hj, href⟩ := exists_of_getThingIndex hindex hground
  dsimp only
  split
  · exact (h.eraseTop i.ref).resetFlagsOf i
  next htop =>
  replace hj : j ∈ t.items.downItems := by rwa [Item.isAlwaysOnTop, if_neg htop] at hj
  split
  · rw [← modifyItem_of_ground hground]
    exact h.modifyItem i.ref _ fun _ j _ _ => rfl
  · rw [← href]
    exact (h.eraseDown hj).resetFlagsOf i

theorem addGround (hnew : i.ref ∉ t.allItems.map (·.ref)) :
    Indexed types kept (t.addGround types i) := by
  unfold Tile.addGround
  split
  · exact (h.setGround hnew).setFlagsOf i
  · next old _ => exact ((h.setGround hnew).resetFlagsOf old).setFlagsOf i

theorem removeSplash : Indexed types kept (t.removeSplash types) := by
  unfold Tile.removeSplash
  split
  · next old _ => exact h.removeItem old 1
  · exact h

theorem addTop (hnew : i.ref ∉ t.allItems.map (·.ref))
    (htop : (i.item.getType types).alwaysOnTop = true) :
    Indexed types kept (t.addTop types i) := by
  unfold Tile.addTop
  dsimp only
  split
  · refine (h.removeSplash.insertTop _ ?_ fun _ => htop).setFlagsOf i
    unfold Tile.removeSplash
    split
    · next old _ => exact fun hmem => hnew (refs_removeItem old 1 hmem)
    · exact hnew
  · exact (h.insertTop _ hnew fun _ => htop).setFlagsOf i

theorem addDown (hnew : i.ref ∉ t.allItems.map (·.ref))
    (htop : ¬(i.item.getType types).alwaysOnTop = true) :
    Indexed types kept (t.addDown types i) := by
  have hcls : kept → i.item.isAlwaysOnTop types = false := fun _ => (Bool.not_eq_true _).mp htop
  unfold Tile.addDown
  dsimp only
  split
  · split
    · next old _ =>
      split
      · refine ((h.removeItem old 1).insertDown ?_ hcls).setFlagsOf i
        exact fun hmem => hnew (refs_removeItem old 1 hmem)
      · exact h
    · exact (h.insertDown hnew hcls).setFlagsOf i
  · exact (h.insertDown hnew hcls).setFlagsOf i

theorem addThing {thing : Thing} (hnew : thing.address ∉ t.things.map Thing.address) :
    Indexed types kept (t.addThing types thing) := by
  rcases thing with id | i
  · exact h.consCreature fun hmem => hnew (inl_mem_addresses.2 hmem)
  · have href : i.ref ∉ t.allItems.map (·.ref) := fun hmem => hnew (inr_mem_addresses.2 hmem)
    unfold Tile.addThing
    dsimp only
    split
    · exact h
    split
    · exact h.addGround href
    split
    · next htop => exact h.addTop href htop
    · next htop => exact h.addDown href htop

theorem internalAddThing {thing : Thing} (hnew : thing.address ∉ t.things.map Thing.address) :
    Indexed types kept (t.internalAddThing types thing) := by
  rcases thing with id | i
  · exact h.consCreature fun hmem => hnew (inl_mem_addresses.2 hmem)
  · have href : i.ref ∉ t.allItems.map (·.ref) := fun hmem => hnew (inr_mem_addresses.2 hmem)
    unfold Tile.internalAddThing
    dsimp only
    split
    · split
      · exact (h.setGround href).setFlagsOf i
      · exact h
    split
    · exact h
    split
    · next htop => exact (h.insertTop _ href fun _ => htop).setFlagsOf i
    · next htop => exact (h.insertDown href fun _ => (Bool.not_eq_true _).mp htop).setFlagsOf i

theorem removeThing (thing : Thing) (count : UInt32) :
    Indexed types kept (t.removeThing types thing count) := by
  rcases thing with id | i
  · exact h.eraseCreature id
  · exact h.removeItem i count

/-- The object under an address is unique. -/
theorem eq_of_ref {j : TileItem} (hi : i ∈ t.allItems) (hj : j ∈ t.allItems)
    (href : j.ref = i.ref) : j = i := List.inj_on_of_nodup_map h.refs hj hi href

theorem updateThing {thing : Thing} {itemId : UInt16} {count : UInt32}
    (hthing : thing.address ∈ t.things.map Thing.address → thing ∈ t.things)
    (hcls : kept → ∀ i, thing = .item i →
      (types.getItemType itemId).alwaysOnTop = i.item.isAlwaysOnTop types) :
    Indexed types kept (t.updateThing types thing itemId count) := by
  rcases thing with id | i
  · exact h
  unfold Tile.updateThing
  dsimp only
  split
  · exact h
  next hindex =>
  refine ((h.resetFlagsOf i).modifyItem i.ref _ fun hk j hj href => ?_).setFlagsOf _
  have hi : i ∈ t.allItems := mem_things_item.1 (hthing (inr_mem_addresses.2 ?_))
  · obtain rfl := h.eq_of_ref hi hj href
    rw [isAlwaysOnTop_updated, hcls hk _ rfl]
  · exact href ▸ List.mem_map_of_mem hj

theorem replaceItem {pos : ℕ} (hnew : i.ref ∉ t.allItems.map (·.ref))
    (hcls : kept → ∀ old, t.thingBehind pos = some (.item old) →
      i.item.isAlwaysOnTop types = old.item.isAlwaysOnTop types) :
    Indexed types kept (t.replaceItem types pos i) := by
  unfold Tile.replaceItem
  split
  · exact h
  next p hp =>
  split
  · exact h
  next old hold =>
  have hbehind := thingBehind_of_replacePosition hp hold
  exact ((h.setItem hold hnew fun hk => hcls hk old hbehind).resetFlagsOf old).setFlagsOf i

theorem replaceThing {index : ℕ} {thing : Thing}
    (hnew : thing.address ∉ t.things.map Thing.address)
    (hcls : kept → ∀ i old, thing = .item i → t.getThing index = some (.item old) →
      i.item.isAlwaysOnTop types = old.item.isAlwaysOnTop types) :
    Indexed types kept (t.replaceThing types index thing) := by
  rcases thing with id | i
  · exact h
  have href : i.ref ∉ t.allItems.map (·.ref) := fun hmem => hnew (inr_mem_addresses.2 hmem)
  unfold Tile.replaceThing
  dsimp only
  split
  · next oldGround hground =>
    split
    · exact ((h.setGround href).resetFlagsOf oldGround).setFlagsOf i
    · next hindex =>
      refine h.replaceItem href fun hk old hold => hcls hk i old rfl ?_
      rw [getThing, hground]
      dsimp only
      rw [if_neg hindex, hold]
  · next hground =>
    refine h.replaceItem href fun hk old hold => hcls hk i old rfl ?_
    rw [getThing, hground]
    exact hold

end Indexed

/-- Items keep their class where their id changes or another item takes their place. -/
def KeepsClass (types : Items) (t : Tile) : Op → Prop
  | .updateThing (.item i) itemId _ =>
    (types.getItemType itemId).alwaysOnTop = i.item.isAlwaysOnTop types
  | .replaceThing index (.item i) => ∀ old, t.getThing index = some (.item old) →
      i.item.isAlwaysOnTop types = old.item.isAlwaysOnTop types
  | _ => True

theorem Indexed.apply (h : Indexed types kept t) {op : Op} (hadm : t.Admissible op)
    (hcls : kept → t.KeepsClass types op) : Indexed types kept (t.apply types op) := by
  cases op with
  | addThing thing => exact h.addThing hadm
  | internalAddThing thing => exact h.internalAddThing hadm
  | removeThing thing count => exact h.removeThing thing count
  | updateThing thing itemId count =>
    refine h.updateThing hadm fun hk i heq => ?_
    subst heq
    exact hcls hk
  | replaceThing index thing =>
    refine h.replaceThing hadm.2 fun hk i old heq hold => ?_
    subst heq
    exact hcls hk old hold

/-- The invariant holds along a run. -/
theorem Indexed.run {ok : Tile → Op → Prop} (hok : ∀ t op, ok t op → t.Admissible op)
    (hcls : kept → ∀ t op, ok t op → t.KeepsClass types op) {ops : List Op}
    (h : Indexed types kept t) (hruns : Runs types ok t ops) :
    Indexed types kept (Tile.run types t ops) := by
  induction ops generalizing t with
  | nil => exact h
  | cons op ops ih =>
    obtain ⟨hop, hops⟩ := hruns
    exact ih (h.apply (hok t op hop) fun hk => hcls hk t op hop) hops

/-! ## Indices and things -/

namespace Indexed

variable (h : Indexed types True t)

include h

theorem down_nodup : (t.items.downItems.map (·.ref)).Nodup :=
  h.refs.sublist (((List.take_sublist _ _).trans (List.sublist_append_right _ _)).map _)

theorem top_nodup : (t.items.topItems.map (·.ref)).Nodup :=
  h.refs.sublist (((List.drop_sublist _ _).trans (List.sublist_append_right _ _)).map _)

/-- A thing behind the ground is found at the place that it has in the order. -/
theorem scanThings_of_mem {thing : Thing} (hmem : thing ∈ t.thingsBehind) (n : ℤ) :
    ∃ k : ℕ, t.scanThings types thing n = n + 1 + k ∧ t.thingsBehind[k]? = some thing := by
  have htopCount := h.splits.getTopItemCount_eq
  unfold thingsBehind at hmem ⊢
  rcases thing with id | i
  · have hid : id ∈ t.creatures := by simpa using hmem
    have hnodup : (t.creatures.map fun id => id).Nodup := by simpa using h.creatures
    obtain ⟨k, hscan, hk⟩ := scan_of_mem hnodup hid (n + t.items.getTopItemCount)
    refine ⟨t.items.getTopItemCount + k, ?_, ?_⟩
    · simp only [scanThings, hscan, if_true]
      push_cast
      ring
    · grind
  · have hi : i ∈ t.items.topItems ∨ i ∈ t.items.downItems := by simpa using hmem
    rcases hi with hi | hi
    · obtain ⟨k, hscan, hk⟩ := scan_of_mem h.top_nodup hi n
      refine ⟨k, ?_, ?_⟩
      · simp only [scanThings, h.top trivial i hi, hscan, if_true]
      · grind
    · obtain ⟨k, hscan, hk⟩ := scan_of_mem h.down_nodup hi
        (n + t.items.getTopItemCount + t.creatures.length)
      refine ⟨t.items.getTopItemCount + (t.creatures.length + k), ?_, ?_⟩
      · simp only [scanThings, h.down trivial i hi, Bool.false_eq_true, if_false, hscan, if_true]
        push_cast
        ring
      · grind

/-- Where the segments hold their classes, the index of a thing finds the thing. -/
theorem getThing_getThingIndex {thing : Thing} (hmem : thing ∈ t.things) :
    ∃ n : ℕ, t.getThingIndex types thing = n ∧ t.getThing n = some thing := by
  have hnodup := h.nodup
  unfold things at hmem hnodup
  unfold getThingIndex getThing
  cases hground : t.ground with
  | none =>
    rw [hground] at hmem
    obtain ⟨k, hindex, hk⟩ := h.scanThings_of_mem hmem (-1)
    refine ⟨k, by simpa using hindex, ?_⟩
    exact (thingBehind_eq h.splits k).trans hk
  | some g =>
    rw [hground] at hmem hnodup
    rcases List.mem_cons.1 hmem with rfl | hbehind
    · exact ⟨0, if_pos rfl, rfl⟩
    · have hne : thing.address ≠ .inr g.ref := by
        intro heq
        refine (List.nodup_cons.1 hnodup).1 ?_
        exact List.mem_map.2 ⟨thing, hbehind, heq⟩
      obtain ⟨k, hindex, hk⟩ := h.scanThings_of_mem hbehind 0
      refine ⟨k + 1, ?_, ?_⟩
      · dsimp only
        rw [if_neg hne, hindex]
        push_cast
        ring
      · exact (thingBehind_eq h.splits k).trans hk

/-- The down items are the items that are not always on top, in order. -/
theorem downItems_eq : t.items.downItems =
    t.items.items.filter fun i => !i.item.isAlwaysOnTop types := by
  have hdown : t.items.downItems.filter (fun i => !i.item.isAlwaysOnTop types) =
      t.items.downItems := by
    rw [List.filter_eq_self]
    exact fun i hi => by rw [h.down trivial i hi, Bool.not_false]
  have htop : t.items.topItems.filter (fun i => !i.item.isAlwaysOnTop types) = [] := by
    rw [List.filter_eq_nil_iff]
    exact fun i hi => by simp [h.top trivial i hi]
  conv_rhs => rw [h.splits.items, List.filter_append, hdown, htop, List.append_nil]

end Indexed

/-- What an operation needs for the order of things to be kept. -/
def Orderly (types : Items) (t : Tile) (op : Op) : Prop := t.Admissible op ∧ t.KeepsClass types op

/-- After any run from an empty tile, the first entries of the vector are its down items, every
thing is found at its index, and the indices below the last one list every ground, item and
creature exactly once. -/
theorem index_bijection (types : Items) (flags : TileFlags) (ops : List Op)
    (hruns : Runs types (Orderly types) { flags := flags } ops) :
    let t := run types { flags := flags } ops
    t.items.items.take t.items.downItemCount =
        t.items.items.filter (fun i => !i.item.isAlwaysOnTop types) ∧
      (t.things.map Thing.address).Nodup ∧
      (∀ thing ∈ t.things,
        ∃ n : ℕ, t.getThingIndex types thing = n ∧ t.getThing n = some thing) ∧
      (List.range t.getLastIndex).map t.getThing = t.things.map some ∧
      t.things.Perm ((t.ground.toList ++ t.items.items).map .item ++
        t.creatures.map .creature) := by
  intro t
  have h : Indexed types True t := by
    refine (indexed_empty flags).run (fun _ _ hop => hop.1) (fun _ _ _ hop => hop.2) hruns
  refine ⟨h.downItems_eq, h.nodup, fun thing hmem => h.getThing_getThingIndex hmem,
    map_getThing_range h.le, things_perm⟩

/-- Grass, teleports and a sword. -/
def templeTypes : Items where
  items id :=
    if id == 4526 then { id := 4526, group := .ground }
    else if id == 1387 then
      { id := 1387, type := .teleport, alwaysOnTop := true, alwaysOnTopOrder := 2 }
    else if id == 2376 then { id := 2376, moveable := true }
    else {}
  reverseItemMap _ := none

def grass : TileItem := ⟨0, { cls := .item, id := 4526 }⟩
def teleport (ref : ℕ) : TileItem := ⟨ref, { cls := .teleport, id := 1387 }⟩
def sword (ref : ℕ) : TileItem := ⟨ref, { cls := .item, id := 2376 }⟩

/-- Things come to a tile, an item takes the place of another one, and one leaves. -/
def templeRun : List Op :=
  [.internalAddThing (.item grass), .internalAddThing (.item (teleport 1)),
    .addThing (.item (sword 2)), .addThing (.creature 7), .replaceThing 3 (.item (sword 3)),
    .removeThing (.item (teleport 1)) 1]

theorem index_bijection_temple :
    let t := run templeTypes {} templeRun
    t.items.items.take t.items.downItemCount =
        t.items.items.filter (fun i => !i.item.isAlwaysOnTop templeTypes) ∧
      (t.things.map Thing.address).Nodup ∧
      (∀ thing ∈ t.things,
        ∃ n : ℕ, t.getThingIndex templeTypes thing = n ∧ t.getThing n = some thing) ∧
      (List.range t.getLastIndex).map t.getThing = t.things.map some ∧
      t.things.Perm ((t.ground.toList ++ t.items.items).map .item ++
        t.creatures.map .creature) := by
  refine index_bijection templeTypes 0 templeRun ?_
  refine ⟨⟨by decide, trivial⟩, ⟨by decide, trivial⟩, ⟨by decide, trivial⟩,
    ⟨by decide, trivial⟩, ⟨by decide, ?_⟩, ⟨by decide, trivial⟩, trivial⟩
  intro old hold
  have heq : old = sword 2 := by
    have hget : some (Thing.item (sword 2)) = some (.item old) := hold
    simpa using hget.symm
  rw [heq]
  rfl

end Tile

end OTServBR
