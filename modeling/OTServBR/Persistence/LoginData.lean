import Mathlib.Logic.Function.Basic
import OTServBR.Lib.BreadthFirst
import OTServBR.Lib.SortedMap
import OTServBR.Item.Tree
import OTServBR.Persistence.Framing

/-! # The items of a player

`saveItems` writes one row for each item: the items of the list first, then
the contents of their containers breadth first. `loadItems` creates the items
again in a map ordered by row number, and `loadPlayer` walks this map backwards
and puts every item into its slot, box or container.
-/

namespace OTServBR

open BreadthFirst

/-- An item object and its address. -/
structure Object where
  ref : ℕ
  item : Item

/-- The columns of a row that describe the item. -/
structure StoredItem where
  itemtype : UInt16
  count : UInt16
  attributes : Str
  deriving DecidableEq, Repr

namespace LoginData

section Save

variable (types : Items) (openContainers : List (UInt8 × ℕ))

/-- A container remembers the number of the window it is open in. -/
def markOpen (o : Object) : Item :=
  if o.item.cls.isContainer then
    let container :=
      if o.item.getIntAttr .openContainer > 0 then o.item.setIntAttr .openContainer 0 else o.item
    match openContainers.find? (·.2 == o.ref) with
    | some its => container.setIntAttr .openContainer (its.1.toUInt32.toInt32 + 1)
    | none => container
  else o.item

def storeItem (i : Item) : StoredItem :=
  ⟨i.id, i.getSubType types, i.serializeAttr types⟩

/-- `saveItems`: the running ids start at 101. -/
def saveItems (itemList : List (ℕ × RoseTree Object)) : List (Row StoredItem) :=
  (flatten (·.item.cls.isContainer) 101 itemList).map
    (Row.map fun o => storeItem types (markOpen openContainers o))

end Save

section Load

variable (env : AttrEnv) (types : Items)

/-- `CreateItem` and the attributes of a row; errors in the attributes are only logged. -/
def restoreItem (s : StoredItem) : Option Item :=
  (Item.createItem types s.itemtype s.count).map fun i =>
    (i.unserializeAttr env types s.attributes).item

/-- The map from row numbers to items and parents. -/
abbrev ItemMap := List (Row Item)

def loadItems (result : List (Row StoredItem)) : ItemMap :=
  result.foldl (fun itemMap row =>
    match restoreItem env types row.val with
    | some item => SortedMap.insert Row.sid ⟨row.pid, row.sid, item⟩ itemMap
    | none => itemMap) []

/-- The cylinders while items are attached: those of the player, and the contents of every
container by its row number. -/
structure Attached (σ : Type) where
  top : σ
  contents : ℕ → List (Row Item) := fun _ => []

/-- Whether a row number belongs to a container of the map. -/
def isParent (itemMap : ItemMap) (pid : ℕ) : Bool :=
  match itemMap.find? (·.sid == pid) with
  | none => false
  | some it2 => it2.val.cls.isContainer

variable {σ : Type} (isTop : ℕ → Bool) (addTop : Row Item → σ → σ)

/-- One turn of the loop over the map: `internalAddThing` of the cylinder that the parent id
stands for. -/
def attach (itemMap : ItemMap) (r : Row Item) (st : Attached σ) : Attached σ :=
  if isTop r.pid then { st with top := addTop r st.top }
  else if isParent itemMap r.pid then
    { st with contents := Function.update st.contents r.pid (r :: st.contents r.pid) }
  else st

/-- The loop from the last row to the first. -/
def attachAll (itemMap : ItemMap) (top : σ) : Attached σ :=
  itemMap.foldr (attach isTop addTop itemMap) { top := top }

/-- The item of a row with its contents, down to a depth. -/
def treeOf (contents : ℕ → List (Row Item)) : ℕ → Row Item → ItemTree
  | 0, r => .node r.val []
  | depth + 1, r => .node r.val ((contents r.sid).map (treeOf contents depth))

/-- `Player::internalAddThing`: an occupied slot keeps its item. -/
def addInventory (r : Row Item) (inventory : ℕ → Option (Row Item)) : ℕ → Option (Row Item) :=
  if 0 < r.pid && r.pid < 12 then
    if (inventory r.pid).isSome then inventory else Function.update inventory r.pid (some r)
  else inventory

/-- The depot chest of a box, created where needed. -/
def addDepot (r : Row Item) (depotChests : ℕ → List (Row Item)) : ℕ → List (Row Item) :=
  Function.update depotChests r.pid (r :: depotChests r.pid)

def loadInventory (result : List (Row StoredItem)) (slot : ℕ) : Option ItemTree :=
  let itemMap := loadItems env types result
  let st := attachAll (fun pid => 1 ≤ pid && pid ≤ 11) addInventory itemMap fun _ => none
  (st.top slot).map (treeOf st.contents itemMap.length)

def loadDepot (result : List (Row StoredItem)) (box : ℕ) : List ItemTree :=
  let itemMap := loadItems env types result
  let st := attachAll (fun pid => pid < 100) addDepot itemMap fun _ => []
  (st.top box).map (treeOf st.contents itemMap.length)

def loadInbox (result : List (Row StoredItem)) : List ItemTree :=
  let itemMap := loadItems env types result
  let st := attachAll (fun pid => pid < 100) List.cons itemMap []
  st.top.map (treeOf st.contents itemMap.length)

end Load

/-! ## The attach loop -/

section Attach

variable {σ : Type} {isTop : ℕ → Bool} {addTop : Row Item → σ → σ} {itemMap : ItemMap}

/-- What the loop has attached after walking over some last part of the map. -/
theorem foldr_attach (l : List (Row Item)) (top : σ) :
    (l.foldr (attach isTop addTop itemMap) { top := top }).top =
        (l.filter fun r => isTop r.pid).foldr addTop top ∧
      ∀ sid, (l.foldr (attach isTop addTop itemMap) { top := top }).contents sid =
        (childRows l sid).filter fun r => !isTop r.pid && isParent itemMap r.pid := by
  induction l with
  | nil => exact ⟨rfl, fun _ => rfl⟩
  | cons r l ih =>
    obtain ⟨htop, hcontents⟩ := ih
    rw [List.foldr_cons, attach]
    by_cases ht : isTop r.pid = true
    · rw [if_pos ht]
      refine ⟨by simp [ht, htop], fun sid => ?_⟩
      dsimp only
      rw [hcontents, childRows, childRows, List.filter_cons]
      split
      · rw [List.filter_cons_of_neg (by simp [ht])]
      · rfl
    · have htop' : (r :: l).filter (fun r => isTop r.pid) = l.filter fun r => isTop r.pid := by
        simp [ht]
      rw [if_neg ht, htop']
      by_cases hp : isParent itemMap r.pid = true
      · rw [if_pos hp]
        refine ⟨htop, fun sid => ?_⟩
        dsimp only
        by_cases hs : r.pid = sid
        · subst hs
          rw [Function.update_self, hcontents, childRows, childRows,
            List.filter_cons_of_pos (by simp), List.filter_cons_of_pos (by simp [ht, hp])]
        · rw [Function.update_of_ne (Ne.symm hs), hcontents, childRows, childRows,
            List.filter_cons_of_neg (by simpa using hs)]
      · rw [if_neg hp]
        refine ⟨htop, fun sid => ?_⟩
        rw [hcontents, childRows, childRows, List.filter_cons]
        split
        · rw [List.filter_cons_of_neg (by simp [hp])]
        · rfl

/-- If every row below the top has a container as its parent, then the loop attaches all of them,
and the tree of a row is the one its rows build. -/
theorem treeOf_attachAll {k : ℕ} (hsid : ∀ r ∈ itemMap, k ≤ r.sid)
    (htop : ∀ p, k ≤ p → isTop p = false)
    (hparent : ∀ r ∈ itemMap, k ≤ r.pid → isParent itemMap r.pid = true) (top : σ) (depth : ℕ)
    {r : Row Item} (hr : k ≤ r.sid) :
    treeOf (attachAll isTop addTop itemMap top).contents depth r = build itemMap depth r := by
  induction depth generalizing r with
  | zero => rfl
  | succ depth ih =>
    have hc : (attachAll isTop addTop itemMap top).contents r.sid = childRows itemMap r.sid := by
      rw [attachAll, (foldr_attach itemMap top).2, List.filter_eq_self]
      intro s hs
      obtain ⟨hmem, hpid⟩ := List.mem_filter.mp hs
      have hp : s.pid = r.sid := by simpa using hpid
      have hk : k ≤ s.pid := hp ▸ hr
      rw [htop _ hk, hparent s hmem hk]
      rfl
    rw [treeOf, build, hc]
    exact congrArg _ (List.map_congr_left fun s hs => ih (hsid s (List.mem_of_mem_filter hs)))

end Attach

/-! ## One item -/

section Restore

variable (env : AttrEnv) (types : Items) (openContainers : List (UInt8 × ℕ))

/-- An object of its type's class whose type can be created; only containers hold items. -/
def Creatable : RoseTree Object → Prop :=
  RoseTree.All fun o l =>
    o.item.cls = Item.classOf (types.getItemType o.item.id) ∧
    (Item.createItem types o.item.id).isSome = true ∧
    (o.item.cls.isContainer = false → l = [])

/-- What `CreateItem` and the stored attributes make of a saved object. -/
def restored (o : Object) : Item :=
  (restoreItem env types (storeItem types (markOpen openContainers o))).getD o.item

variable {env types openContainers}

/-- Whether an item is created does not depend on its count. -/
theorem exists_createItem {id : UInt16} (count : UInt16)
    (h : (Item.createItem types id).isSome = true) :
    ∃ c, Item.createItem types id count = some c := by
  rw [← Option.isSome_iff_exists]
  revert h
  unfold Item.createItem
  dsimp only
  split_ifs <;> simp only [Option.isSome_some, imp_self]

/-- Marking a container only ever sets its window attribute. -/
theorem markOpen_induction {P : Item → Prop} {o : Object} (h : P o.item)
    (hset : ∀ i v, P i → P (i.setIntAttr .openContainer v)) : P (markOpen openContainers o) := by
  unfold markOpen
  dsimp only
  have hzero : P (if o.item.getIntAttr .openContainer > 0 then
      o.item.setIntAttr .openContainer 0 else o.item) := by
    split
    · exact hset _ _ h
    · exact h
  split
  · cases openContainers.find? (·.2 == o.ref) with
    | none => exact hzero
    | some its => exact hset _ _ hzero
  · exact h

theorem id_markOpen (o : Object) : (markOpen openContainers o).id = o.item.id :=
  markOpen_induction (P := fun i => i.id = o.item.id) rfl fun _ _ h => h

variable (env openContainers) in
/-- A creatable object is restored as an item of its class. -/
theorem restoreItem_storeItem {o : Object}
    (hcls : o.item.cls = Item.classOf (types.getItemType o.item.id))
    (hsome : (Item.createItem types o.item.id).isSome = true) :
    restoreItem env types (storeItem types (markOpen openContainers o)) =
        some (restored env types openContainers o) ∧
      (restored env types openContainers o).cls = o.item.cls := by
  rw [restored, restoreItem, storeItem, id_markOpen]
  obtain ⟨c, hc⟩ := exists_createItem ((markOpen openContainers o).getSubType types) hsome
  dsimp only
  rw [hc]
  refine ⟨rfl, ?_⟩
  rw [Option.map_some, Option.getD_some, (Item.sameObject_unserializeAttr env types c _).cls,
    Item.cls_of_createItem hc, hcls]

/-- The map of the restored objects, in the order in which they were saved. -/
def savedMap (env : AttrEnv) (types : Items) (openContainers : List (UInt8 × ℕ))
    (itemList : List (ℕ × RoseTree Object)) : ItemMap :=
  (flatten (·.item.cls.isContainer) 101 itemList).map
    (Row.map (restored env types openContainers))

variable {itemList : List (ℕ × RoseTree Object)}

theorem Creatable.leaf {t : RoseTree Object} (h : Creatable types t) :
    t.All fun o ts => o.item.cls.isContainer = false → ts = [] :=
  RoseTree.All.imp (fun _ _ h => h.2.2) h

theorem map_sid_savedMap (hc : ∀ e ∈ itemList, Creatable types e.2) :
    (savedMap env types openContainers itemList).map Row.sid =
      List.range' 101 (itemList.map (·.2.size)).sum := by
  rw [savedMap, List.map_map]
  exact map_sid_flatten fun e he => (hc e he).leaf

theorem sorted_savedMap (hc : ∀ e ∈ itemList, Creatable types e.2) :
    SortedMap.Sorted Row.sid (savedMap env types openContainers itemList) := by
  have h : ((savedMap env types openContainers itemList).map Row.sid).Pairwise (· < ·) := by
    rw [map_sid_savedMap hc]
    exact List.pairwise_lt_range'
  exact List.pairwise_map.mp h

/-- Rows that come back from the database in any order fill the map with the restored objects. -/
theorem loadItems_perm (hc : ∀ e ∈ itemList, Creatable types e.2) {result : List (Row StoredItem)}
    (hresult : result.Perm (saveItems types openContainers itemList)) :
    loadItems env types result = savedMap env types openContainers itemList := by
  have hfold : loadItems env types result =
      (result.filterMap fun row => (restoreItem env types row.val).map
        fun i => (⟨row.pid, row.sid, i⟩ : Row Item)).foldl
        (fun itemMap r => SortedMap.insert Row.sid r itemMap) [] := by
    rw [loadItems, List.foldl_filterMap]
    congr 1
    funext itemMap row
    cases restoreItem env types row.val <;> rfl
  have hmap : (saveItems types openContainers itemList).filterMap (fun row =>
      (restoreItem env types row.val).map fun i => (⟨row.pid, row.sid, i⟩ : Row Item)) =
        savedMap env types openContainers itemList := by
    rw [saveItems, savedMap, List.filterMap_map, ← List.filterMap_eq_map]
    refine List.filterMap_congr fun r hr => ?_
    obtain ⟨ts, hcls, hsome, -⟩ := forall_flatten hc r hr
    have := (restoreItem_storeItem env openContainers hcls hsome).1
    simp [Row.map, this]
  rw [hfold]
  exact SortedMap.foldl_insert (sorted_savedMap hc) (hmap ▸ hresult.filterMap _)

/-- The rows of the items in the list itself. -/
def topRows (env : AttrEnv) (types : Items) (openContainers : List (UInt8 × ℕ))
    (itemList : List (ℕ × RoseTree Object)) : List (Row Item) :=
  (batchRows 101 itemList).map (Row.map (restored env types openContainers))

/-- What the loop makes of a saved list whose parent ids are taken for cylinders of the player. -/
structure Attaches (env : AttrEnv) (types : Items) (openContainers : List (UInt8 × ℕ))
    (itemList : List (ℕ × RoseTree Object)) {σ : Type} (isTop : ℕ → Bool)
    (addTop : Row Item → σ → σ) (init : σ) : Prop where
  top : (attachAll isTop addTop (savedMap env types openContainers itemList) init).top =
    (topRows env types openContainers itemList).foldr addTop init
  tree : (topRows env types openContainers itemList).map (fun r => (r.pid,
      treeOf (attachAll isTop addTop (savedMap env types openContainers itemList) init).contents
        (savedMap env types openContainers itemList).length r)) =
    itemList.map fun e => (e.1, e.2.map (restored env types openContainers))

variable {σ : Type}

variable (env openContainers) in
theorem attaches (isTop : ℕ → Bool) (hc : ∀ e ∈ itemList, Creatable types e.2)
    (hpid : ∀ e ∈ itemList, e.1 < 101) (hin : ∀ e ∈ itemList, isTop e.1 = true)
    (hout : ∀ p, 101 ≤ p → isTop p = false) (addTop : Row Item → σ → σ) (init : σ) :
    Attaches env types openContainers itemList isTop addTop init := by
  have hleaf : ∀ e ∈ itemList, e.2.All fun (o : Object) ts =>
      o.item.cls.isContainer = false → ts = [] := fun e he => (hc e he).leaf
  have hsid : ∀ r ∈ savedMap env types openContainers itemList, 101 ≤ r.sid := by
    intro r hr
    have hs : r.sid ∈ (savedMap env types openContainers itemList).map Row.sid :=
      List.mem_map_of_mem hr
    rw [map_sid_savedMap hc, List.mem_range'_1] at hs
    exact hs.1
  -- the rows after the batch of the list are filed under containers of the map
  have hsplit : ∀ r ∈ rows (fun o : Object => o.item.cls.isContainer)
      (itemList.map (·.2.size)).sum (101 + itemList.length)
      (batchQueue (·.item.cls.isContainer) 101 itemList), 101 ≤ r.pid ∧
        isParent (savedMap env types openContainers itemList) r.pid = true := by
    intro r hr
    obtain ⟨hle, s, hs, hsp, hcs⟩ := parent_flatten hleaf r hr
    refine ⟨hle, ?_⟩
    obtain ⟨ts, hcls, hsome, -⟩ := forall_flatten hc s hs
    have hmem : s.map (restored env types openContainers) ∈
        savedMap env types openContainers itemList := List.mem_map_of_mem hs
    have hfind := (sorted_savedMap hc).find?_eq hmem
    have hval : (s.map (restored env types openContainers)).val.cls = s.val.item.cls :=
      (restoreItem_storeItem env openContainers hcls hsome).2
    have hkey : (s.map (restored env types openContainers)).sid = r.pid := hsp
    rw [hkey] at hfind
    rw [isParent, hfind]
    dsimp only
    rw [hval]
    exact hcs
  have hbatch : ∀ r ∈ batchRows 101 itemList, r.pid < 101 ∧ isTop r.pid = true := by
    intro r hr
    obtain ⟨e, he, hp⟩ := List.mem_map.mp (mem_pid_batchRows hr)
    exact hp ▸ ⟨hpid e he, hin e he⟩
  have hparent : ∀ r ∈ savedMap env types openContainers itemList, 101 ≤ r.pid →
      isParent (savedMap env types openContainers itemList) r.pid = true := by
    intro r hr hle
    obtain ⟨r', hr', rfl⟩ := List.mem_map.mp hr
    rcases List.mem_append.mp hr' with hr' | hr'
    · have hlt := (hbatch r' hr').1
      have : 101 ≤ r'.pid := hle
      omega
    · exact (hsplit r' hr').2
  constructor
  · rw [attachAll, (foldr_attach _ init).1]
    congr 1
    rw [savedMap, flatten, List.map_append, List.filter_append, topRows]
    have h₁ : ((batchRows 101 itemList).map (Row.map (restored env types openContainers))).filter
        (fun r => isTop r.pid) =
        (batchRows 101 itemList).map (Row.map (restored env types openContainers)) := by
      rw [List.filter_eq_self]
      intro r hr
      obtain ⟨r', hr', rfl⟩ := List.mem_map.mp hr
      exact (hbatch r' hr').2
    have h₂ : ((rows (fun o : Object => o.item.cls.isContainer)
        (itemList.map (·.2.size)).sum (101 + itemList.length)
        (batchQueue (·.item.cls.isContainer) 101 itemList)).map
          (Row.map (restored env types openContainers))).filter (fun r => isTop r.pid) = [] := by
      rw [List.filter_eq_nil_iff]
      intro r hr
      obtain ⟨r', hr', rfl⟩ := List.mem_map.mp hr
      have := hout r'.pid (hsplit r' hr').1
      simp [Row.map, this]
    rw [h₁, h₂, List.append_nil]
  · have hlen : (savedMap env types openContainers itemList).length =
        (itemList.map (·.2.size)).sum := by
      have h : ((savedMap env types openContainers itemList).map Row.sid).length = _ :=
        congrArg List.length (map_sid_savedMap hc)
      rwa [List.length_map, List.length_range'] at h
    have hf : ∀ e ∈ itemList,
        e.2.size ≤ (savedMap env types openContainers itemList).length + 1 := by
      intro e he
      rw [hlen]
      exact (List.le_sum_of_mem (List.mem_map_of_mem (f := fun e => e.2.size) he)).trans
        (Nat.le_succ _)
    have hbuild := map_build_flatten (c := fun o : Object => o.item.cls.isContainer) hpid hleaf hf
    rw [topRows, List.map_map]
    conv_rhs => rw [← hbuild, List.map_map]
    refine List.map_congr_left fun r hr => ?_
    have hr' : 101 ≤ (r.map (restored env types openContainers)).sid := by
      refine hsid _ ?_
      rw [savedMap, flatten, List.map_append]
      exact List.mem_append_left _ (List.mem_map_of_mem hr)
    simp only [Function.comp_apply]
    rw [treeOf_attachAll hsid hout hparent init _ hr', ← build_map, savedMap]
    rfl

/-! ## The three sections -/

theorem foldr_addDepot (l : List (Row Item)) (box : ℕ) :
    l.foldr addDepot (fun _ => []) box = l.filter (·.pid == box) := by
  induction l with
  | nil => rfl
  | cons r l ih =>
    rw [List.foldr_cons, addDepot]
    by_cases h : r.pid = box
    · subst h
      rw [Function.update_self, ih, List.filter_cons_of_pos (by simp)]
    · rw [Function.update_of_ne (Ne.symm h), ih, List.filter_cons_of_neg (by simpa using h)]

/-- Distinct slots never meet an occupied one. -/
theorem foldr_addInventory {l : List (Row Item)} (hslot : ∀ r ∈ l, 1 ≤ r.pid ∧ r.pid ≤ 11)
    (hnodup : (l.map Row.pid).Nodup) (slot : ℕ) :
    l.foldr addInventory (fun _ => none) slot = l.find? (·.pid == slot) := by
  induction l generalizing slot with
  | nil => rfl
  | cons r l ih =>
    have ih := fun slot => ih (fun r hr => hslot r (List.mem_cons_of_mem _ hr)) hnodup.of_cons slot
    have hr := hslot r (by simp)
    have hfree : l.find? (·.pid == r.pid) = none := by
      rw [List.find?_eq_none]
      intro s hs
      have hne : s.pid ≠ r.pid := fun h =>
        (List.nodup_cons.mp hnodup).1 (h ▸ List.mem_map_of_mem hs)
      simpa using hne
    have hin : (0 < r.pid && r.pid < 12) = true := by
      simp only [Bool.and_eq_true, decide_eq_true_eq]
      omega
    rw [List.foldr_cons, addInventory, if_pos hin, ih, hfree, Option.isSome_none,
      if_neg Bool.false_ne_true]
    by_cases h : r.pid = slot
    · subst h
      rw [Function.update_self, List.find?_cons_of_pos (by simp)]
    · rw [Function.update_of_ne (Ne.symm h), ih, List.find?_cons_of_neg (by simpa using h)]

theorem map_pid_topRows :
    (topRows env types openContainers itemList).map Row.pid = itemList.map Prod.fst := by
  rw [topRows, List.map_map, ← map_pid_batchRows]
  rfl

theorem loadInventory_saveItems (hc : ∀ e ∈ itemList, Creatable types e.2)
    (hslot : ∀ e ∈ itemList, 1 ≤ e.1 ∧ e.1 ≤ 11) (hnodup : (itemList.map Prod.fst).Nodup)
    {result : List (Row StoredItem)}
    (hresult : result.Perm (saveItems types openContainers itemList)) (slot : ℕ) :
    loadInventory env types result slot =
      (itemList.find? (·.1 == slot)).map fun e => e.2.map (restored env types openContainers) := by
  obtain ⟨htop, htree⟩ := attaches env openContainers (fun pid => 1 ≤ pid && pid ≤ 11) hc
    (fun e he => by have := hslot e he; omega) (fun e he => by simpa using hslot e he)
    (fun p hp => by simp; omega) addInventory fun _ => none
  have hpids : ∀ r ∈ topRows env types openContainers itemList, 1 ≤ r.pid ∧ r.pid ≤ 11 := by
    intro r hr
    have hp : r.pid ∈ itemList.map Prod.fst := map_pid_topRows ▸ List.mem_map_of_mem hr
    obtain ⟨e, he, hep⟩ := List.mem_map.mp hp
    exact hep ▸ hslot e he
  rw [loadInventory, loadItems_perm hc hresult]
  rw [htop, foldr_addInventory hpids (map_pid_topRows.symm ▸ hnodup)]
  have h := congrArg (fun l => (l.find? (·.1 == slot)).map Prod.snd) htree
  simpa [List.find?_map, Function.comp_def] using h

theorem loadDepot_saveItems (hc : ∀ e ∈ itemList, Creatable types e.2)
    (hbox : ∀ e ∈ itemList, e.1 < 100) {result : List (Row StoredItem)}
    (hresult : result.Perm (saveItems types openContainers itemList)) (box : ℕ) :
    loadDepot env types result box =
      (itemList.filter (·.1 == box)).map fun e => e.2.map (restored env types openContainers) := by
  obtain ⟨htop, htree⟩ := attaches env openContainers (fun pid => pid < 100) hc
    (fun e he => by have := hbox e he; omega) (fun e he => by simpa using hbox e he) (fun p hp => by simp; omega) addDepot fun _ => []
  rw [loadDepot, loadItems_perm hc hresult]
  rw [htop, foldr_addDepot]
  have h := congrArg (fun l => (l.filter (·.1 == box)).map Prod.snd) htree
  simpa [List.filter_map, Function.comp_def] using h

theorem loadInbox_saveItems (hc : ∀ e ∈ itemList, Creatable types e.2)
    (hpid : ∀ e ∈ itemList, e.1 = 0) {result : List (Row StoredItem)}
    (hresult : result.Perm (saveItems types openContainers itemList)) :
    loadInbox env types result =
      itemList.map fun e => e.2.map (restored env types openContainers) := by
  obtain ⟨htop, htree⟩ := attaches env openContainers (fun pid => pid < 100) hc
    (fun e he => by have := hpid e he; omega) (fun e he => by simp [hpid e he]) (fun p hp => by simp; omega) List.cons []
  rw [loadInbox, loadItems_perm hc hresult]
  rw [htop, List.foldr_cons_nil]
  have h := congrArg (List.map Prod.snd) htree
  simpa [Function.comp_def] using h

end Restore

/-- Saving and loading rebuilds the inventory slot by slot, the depot box by box and the inbox:
the forest that was saved, each item restored from its own row. -/
theorem load_saveItems (env : AttrEnv) (types : Items) (openContainers : List (UInt8 × ℕ))
    {itemList : List (ℕ × RoseTree Object)} (hc : ∀ e ∈ itemList, Creatable types e.2)
    {result : List (Row StoredItem)}
    (hresult : result.Perm (saveItems types openContainers itemList)) :
    ((∀ e ∈ itemList, 1 ≤ e.1 ∧ e.1 ≤ 11) → (itemList.map Prod.fst).Nodup → ∀ slot,
      loadInventory env types result slot = (itemList.find? (·.1 == slot)).map fun e =>
        e.2.map (restored env types openContainers)) ∧
    ((∀ e ∈ itemList, e.1 < 100) → ∀ box,
      loadDepot env types result box = (itemList.filter (·.1 == box)).map fun e =>
        e.2.map (restored env types openContainers)) ∧
    ((∀ e ∈ itemList, e.1 = 0) →
      loadInbox env types result = itemList.map fun e =>
        e.2.map (restored env types openContainers)) :=
  ⟨fun hslot hnodup slot => loadInventory_saveItems hc hslot hnodup hresult slot,
    fun hbox box => loadDepot_saveItems hc hbox hresult box,
    fun hpid => loadInbox_saveItems hc hpid hresult⟩

/-- A backpack and coins. -/
def backpackTypes : Items where
  items id :=
    if id == 1988 then { id := 1988, group := .container, moveable := true }
    else if id == 2148 then { id := 2148, stackable := true, moveable := true }
    else {}
  reverseItemMap _ := none

theorem load_saveItems_backpack :
    loadInventory ⟨fun _ => [], fun _ => true⟩ backpackTypes
        (saveItems backpackTypes [(0, 7)]
          [(3, .node ⟨7, { cls := .container, id := 1988 }⟩
            [.node ⟨8, { cls := .item, id := 2148, count := 100 }⟩ [],
              .node ⟨9, { cls := .item, id := 2148, count := 5 }⟩ []])]) 3 =
      some (.node (restored ⟨fun _ => [], fun _ => true⟩ backpackTypes [(0, 7)]
          ⟨7, { cls := .container, id := 1988 }⟩)
        [.node (restored ⟨fun _ => [], fun _ => true⟩ backpackTypes [(0, 7)]
            ⟨8, { cls := .item, id := 2148, count := 100 }⟩) [],
          .node (restored ⟨fun _ => [], fun _ => true⟩ backpackTypes [(0, 7)]
            ⟨9, { cls := .item, id := 2148, count := 5 }⟩) []]) := by
  have hc : ∀ e ∈ [((3 : ℕ), (RoseTree.node ⟨7, { cls := .container, id := 1988 }⟩
      [.node ⟨8, { cls := .item, id := 2148, count := 100 }⟩ [],
        .node ⟨9, { cls := .item, id := 2148, count := 5 }⟩ []] : RoseTree Object))],
      Creatable backpackTypes e.2 := by
    intro e he
    obtain rfl := List.mem_singleton.mp he
    refine .node (by decide) fun t ht => ?_
    rcases List.mem_cons.mp ht with rfl | ht
    · exact .node (by decide) (by simp)
    · obtain rfl := List.mem_singleton.mp ht
      exact .node (by decide) (by simp)
  have h := (load_saveItems ⟨fun _ => [], fun _ => true⟩ backpackTypes [(0, 7)] hc
    (List.Perm.refl _)).1 (by simp) (by simp) 3
  simpa using h

end LoginData

end OTServBR
