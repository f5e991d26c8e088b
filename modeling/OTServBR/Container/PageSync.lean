import OTServBR.Container.Pages
import OTServBR.Lib.Run

/-! # What the client shows of a container

A page is right after a packet if the packet brings what the page lacks. Items
are sent as if they came in front of a page, or behind it in a browsed field,
and the last page is left with its last item.
-/

namespace OTServBR

variable {types : Items} {c : PagedContainer} {v : OpenContainer} {page : Page} {cid : UInt8}
  {client : UInt8 → Page} {items : List Item} {item : Item} {n : ℕ}

theorem uint16_of_lt {n : ℕ} (h : n < 2 ^ 16) : uint16 n = n := by
  rw [uint16]
  omega

/-- The client shows the items from the first index on in a place. -/
structure Shows (n : ℕ) (items : List Item) (v : OpenContainer) (page : Page) : Prop where
  capacity : page.capacity = n
  firstIndex : page.firstIndex = v.index
  window : page.items = items.window v.index n

/-! ## Packets -/

@[simp] theorem receivePacket_self (packet : PagePacket) :
    receivePacket client packet packet.cid = (client packet.cid).receive packet.message :=
  Function.update_self _ _ _

theorem receivePacket_of_ne {packet : PagePacket} (h : packet.cid ≠ cid) :
    receivePacket client packet cid = client cid :=
  Function.update_of_ne h.symm _ _

theorem receive_of_ne {packets : List PagePacket} (h : ∀ p ∈ packets, p.cid ≠ cid) :
    (packets.foldl receivePacket client) cid = client cid := by
  induction packets generalizing client with
  | nil => rfl
  | cons packet packets ih =>
    rw [List.foldl_cons, ih fun p hp => h p (List.mem_cons_of_mem _ hp)]
    exact receivePacket_of_ne (h packet List.mem_cons_self)

theorem receive_of_eq {packets : List PagePacket} (h : ∀ p ∈ packets, p.cid = cid) :
    (packets.foldl receivePacket client) cid =
      (packets.map (·.message)).foldl Page.receive (client cid) := by
  induction packets generalizing client with
  | nil => rfl
  | cons packet packets ih =>
    rw [List.foldl_cons, ih fun p hp => h p (List.mem_cons_of_mem _ hp), List.map_cons,
      List.foldl_cons, ← h packet List.mem_cons_self, receivePacket_self]

/-- A place gets the packets that are sent for it. -/
theorem receive_flatMap {f : OpenContainer → List PagePacket}
    {openContainers : List OpenContainer} (hf : ∀ v, ∀ p ∈ f v, p.cid = v.cid)
    (hnodup : (openContainers.map (·.cid)).Nodup) (hv : v ∈ openContainers) :
    ((openContainers.flatMap f).foldl receivePacket client) v.cid =
      ((f v).map (·.message)).foldl Page.receive (client v.cid) := by
  induction openContainers generalizing client with
  | nil => cases hv
  | cons w openContainers ih =>
    rw [List.map_cons, List.nodup_cons] at hnodup
    rw [List.flatMap_cons, List.foldl_append]
    rcases List.mem_cons.mp hv with rfl | hv
    · rw [receive_of_ne, receive_of_eq (hf v)]
      intro p hp
      obtain ⟨w, hw, hp⟩ := List.mem_flatMap.mp hp
      rw [hf w p hp]
      exact fun heq => hnodup.1 (heq ▸ List.mem_map_of_mem hw)
    · have hne : ∀ p ∈ f w, p.cid ≠ v.cid := by
        intro p hp
        rw [hf w p hp]
        exact fun heq => hnodup.1 (heq ▸ List.mem_map_of_mem hv)
      rw [ih hnodup.2 hv, receive_of_ne hne]

/-! ## Pages -/

namespace Shows

/-- An item comes in front of the first page. -/
theorem addFront (h : Shows n items v page) (hfirst : v.index = 0) :
    Shows n (item :: items) v (page.receive (.addItem v.index (some item))) where
  capacity := h.capacity
  firstIndex := h.firstIndex
  window := by
    rw [Page.receive]
    dsimp only
    rw [h.firstIndex, Nat.sub_self, List.insertIdx_zero, h.capacity, h.window, hfirst,
      List.window_cons]

/-- An item comes behind the last page. -/
theorem addBack (h : Shows n items v page) (hindex : v.index ≤ items.length)
    (hlast : items.length < v.index + n) :
    Shows n (items ++ [item]) v (page.receive (.addItem items.length (some item))) where
  capacity := h.capacity
  firstIndex := h.firstIndex
  window := by
    have hlen : page.items.length = items.length - v.index := by
      rw [h.window, List.length_window]
      omega
    rw [Page.receive]
    dsimp only
    rw [h.firstIndex, h.capacity, ← hlen, List.insertIdx_length_self, List.take_of_length_le,
      h.window, List.window_append_of_lt hindex hlast]
    rw [List.length_append, hlen, List.length_singleton]
    omega

/-- A page before the last one gets its own last item. -/
theorem addBehind (h : Shows n items v page) (hn : 0 < n) (hbehind : v.index + n ≤ items.length) :
    Shows n (items ++ [item]) v
      (page.receive (.addItem (v.index + n - 1) items[v.index + n - 1]?)) where
  capacity := by
    rw [List.getElem?_eq_getElem (by omega)]
    exact h.capacity
  firstIndex := by
    rw [List.getElem?_eq_getElem (by omega)]
    exact h.firstIndex
  window := by
    have hlast : page.items[n - 1]? = items[v.index + n - 1]? := by
      rw [h.window, List.getElem?_window, if_pos (by omega), Nat.add_sub_assoc hn]
    have hindex : v.index + n - 1 < items.length := by omega
    have hsome : items[v.index + n - 1]? = some items[v.index + n - 1] :=
      List.getElem?_eq_getElem hindex
    rw [hsome, Page.receive]
    dsimp only
    rw [h.firstIndex, h.capacity, show v.index + n - 1 - v.index = n - 1 by omega]
    have hpush := List.take_insertIdx_succ (hlast.trans hsome)
    rw [Nat.sub_add_cancel hn] at hpush
    rw [hpush, List.take_of_length_le, h.window, List.window_append_of_le hbehind]
    rw [h.window, List.length_window]
    exact Nat.min_le_left _ _

/-- An item is sent where the page shows it. -/
theorem update_of_mem (h : Shows n items v page) {slot : ℕ} (hindex : v.index ≤ slot)
    (hend : slot < v.index + n) :
    Shows n (items.set slot item) v (page.receive (.updateItem slot item)) where
  capacity := h.capacity
  firstIndex := h.firstIndex
  window := by
    rw [Page.receive]
    dsimp only
    rw [h.firstIndex, h.window, List.window_set, if_neg (by omega)]

theorem update_of_notMem (h : Shows n items v page) {slot : ℕ}
    (hslot : slot < v.index ∨ v.index + n ≤ slot) : Shows n (items.set slot item) v page where
  capacity := h.capacity
  firstIndex := h.firstIndex
  window := by rw [h.window, List.window_set, if_pos hslot]

/-- The item behind the page moves in. -/
theorem remove (h : Shows n items v page) {slot : ℕ} (hn : 0 < n) (hslot : slot < v.index + n) :
    Shows n (items.eraseIdx slot) v
      (page.receive (.removeItem (max slot v.index) items[v.index + n]?)) where
  capacity := h.capacity
  firstIndex := h.firstIndex
  window := by
    rw [Page.receive]
    dsimp only
    rw [h.firstIndex, h.window, List.window_eraseIdx hn hslot,
      show max slot v.index - v.index = slot - v.index by omega]

end Shows

namespace PagedContainer

theorem getItemByIndex_natCast {index : ℕ} : c.getItemByIndex index = c.items[index]? := by
  rw [getItemByIndex, if_neg (by omega), Int.toNat_natCast]

theorem length_items : c.items.length = c.size := List.length_map _

theorem shows_sendContainer {hasParent : Bool} (hcapacity : c.capacity < 2 ^ 8)
    (hpagination : v.index = 0 ∨ c.pagination = true) :
    Shows c.capacity c.items v
      (page.receive (c.sendContainer cid hasParent v.index).message) where
  capacity := Nat.mod_eq_of_lt hcapacity
  firstIndex := rfl
  window := by
    rw [sendContainer, Page.receive]
    dsimp only
    by_cases hsize : v.index ≥ c.size
    · rw [if_pos hsize, if_pos hsize, List.take_nil, List.window_eq_nil]
      exact length_items.le.trans hsize
    rw [if_neg hsize, if_neg hsize]
    split
    · rw [← length_items, List.window_min, Nat.mod_eq_of_lt (by omega), List.take_of_length_le]
      rw [List.length_window]
      omega
    · next hfirst =>
      have hzero : v.index = 0 := by
        rcases hpagination with hzero | hpagination
        · exact hzero
        · simpa [hpagination] using hfirst
      rw [Nat.mod_eq_of_lt (by omega), List.take_of_length_le]
      rw [List.length_window, length_items, hzero, Nat.sub_zero]

/-- The added item is sent for the first page. -/
theorem sendAddContainerItem_front {openContainers : List OpenContainer}
    (hbrowse : c.isBrowseField = false) (hfirst : ∀ v ∈ openContainers, v.index < c.capacity) :
    c.sendAddContainerItem (some item) openContainers =
      openContainers.flatMap fun v => [⟨v.cid, .addItem v.index (some item)⟩] := by
  induction openContainers with
  | nil => rfl
  | cons v openContainers ih =>
    have hadded : c.addedItem (some item) v = (v.index, some item) := by
      rw [addedItem, hbrowse, if_neg Bool.false_ne_true,
        if_neg (Nat.not_le.mpr (hfirst v List.mem_cons_self))]
    rw [sendAddContainerItem, hadded, List.flatMap_cons,
      ← ih fun w hw => hfirst w (List.mem_cons_of_mem _ hw)]
    rfl

/-- What is sent of an item behind all others. The places that show it come first, since the
item that is sent for the other pages is kept. -/
theorem sendAddContainerItem_back {openContainers : List OpenContainer} {m : ℕ} {x : Option Item}
    (hbrowse : c.isBrowseField = true) (hcapacity : 0 < c.capacity) (hsize : c.size = m + 1)
    (hm : m < 2 ^ 16) (hpages : ∀ v ∈ openContainers, v.index + c.capacity < 2 ^ 16)
    (horder : openContainers.Pairwise fun v w =>
      m < w.index + c.capacity → m < v.index + c.capacity)
    (hx : ∀ v ∈ openContainers, m < v.index + c.capacity → x = some item) :
    c.sendAddContainerItem x openContainers =
      openContainers.flatMap fun v =>
        [⟨v.cid, if m < v.index + c.capacity then .addItem m (some item)
          else .addItem (v.index + c.capacity - 1) c.items[v.index + c.capacity - 1]?⟩] := by
  induction openContainers generalizing x with
  | nil => rfl
  | cons v openContainers ih =>
    have hpage := hpages v List.mem_cons_self
    have hsize' : uint16 ((c.size : ℤ) - 1) = m := by
      rw [hsize, show ((m + 1 : ℕ) : ℤ) - 1 = m by omega, uint16_of_lt hm]
    have hend : uint16 ((v.index : ℤ) + c.capacity - 1) = v.index + c.capacity - 1 := by
      rw [show (v.index : ℤ) + c.capacity - 1 = (v.index + c.capacity - 1 : ℕ) by omega,
        uint16_of_lt (by omega)]
    have hrest := fun w hw => hpages w (List.mem_cons_of_mem _ hw)
    rw [List.pairwise_cons] at horder
    rw [sendAddContainerItem, addedItem, if_pos hbrowse, hsize', hend, List.flatMap_cons]
    by_cases hlast : m < v.index + c.capacity
    · rw [if_neg (by omega), if_pos hlast, hx v List.mem_cons_self hlast]
      dsimp only
      rw [ih hrest horder.2 fun _ _ _ => rfl]
      rfl
    · rw [if_pos (by omega), if_neg hlast, getItemByIndex_natCast]
      dsimp only
      rw [ih hrest horder.2 fun w hw hlast' => absurd (horder.1 w hw hlast') hlast]
      rfl

end PagedContainer

/-! ## Sessions -/

namespace PageSession

variable {s : PageSession}

/-- In every place the client shows the items from the first index on. -/
def InSync (s : PageSession) : Prop :=
  ∀ v ∈ s.openContainers, Shows s.container.capacity s.container.items v (s.client v.cid)

/-- Every place has an id of its own, and its first index is one of a page. -/
structure WellFormed (s : PageSession) : Prop where
  nodup : (s.openContainers.map (·.cid)).Nodup
  index : ∀ v ∈ s.openContainers, v.index % s.container.capacity = 0
  pagination : ∀ v ∈ s.openContainers, v.index = 0 ∨ s.container.pagination = true

/-- The capacity is a byte, and the indices have 16 bits. -/
structure Fits (s : PageSession) : Prop where
  positive : 0 < s.container.capacity
  capacity : s.container.capacity < 2 ^ 8
  size : s.container.size < 2 ^ 16
  pages : ∀ v ∈ s.openContainers, v.index + s.container.capacity < 2 ^ 16

/-- An item comes where the packets say: in front of the first page, or in a browsed field behind
all items, where the places that show it come before the others. -/
def AddsInPlace (s : PageSession) (front : Bool) : Prop :=
  (s.container.parent ≠ .none ∧ s.container.parent ≠ .virtualCylinder) ∧
  (front = !s.container.isBrowseField ∨ s.container.itemlist = []) ∧
  if s.container.isBrowseField then
    (∀ v ∈ s.openContainers, v.index ≤ s.container.size) ∧
    s.openContainers.Pairwise fun v w =>
      s.container.size < w.index + s.container.capacity →
        s.container.size < v.index + s.container.capacity
  else ∀ v ∈ s.openContainers, v.index < s.container.capacity

/-- An item is removed before the end of the page that is left: the page itself, or the one
before it if it had no other item. -/
def RemovesBefore (s : PageSession) (index : ℕ) : Prop :=
  ∀ v ∈ s.openContainers,
    index < if s.container.turnsBack v then v.index else v.index + s.container.capacity

/-- The condition under which a step keeps the pages in sync. -/
def KeepsPages (types : Items) (s : PageSession) (a : Action) : Prop :=
  s.Fits ∧
  match a with
  | .addThing index _ =>
    index < s.container.holder.maxSize.toInt32.toInt → s.AddsInPlace true
  | .addItemBack _ => s.AddsInPlace false
  | .updateThing index _ _ | .replaceThing index _ =>
    index < s.container.size → s.container.parent ≠ .none
  | .removeThing index count =>
    ∀ item, s.container.items[index]? = some item → s.container.parent ≠ .none ∧
      (removesPart types item count = true ∨ s.RemovesBefore index)
  | .playerSeekInContainer _ _ => True

theorem inSync_add {x : HolderTree.Change} {thing : HolderTree} {front : Bool} (h : s.InSync)
    (hwf : s.WellFormed) (hfits : s.Fits) (hplace : s.AddsInPlace front)
    (hx : x.itemlist = if front then thing :: s.container.itemlist
      else s.container.itemlist ++ [thing]) :
    (s.add thing.label.item (some x)).InSync := by
  obtain ⟨hparent, hfront, hplace⟩ := hplace
  have hitems : (s.container.change x).items =
      if s.container.isBrowseField then s.container.items ++ [thing.label.item]
      else thing.label.item :: s.container.items := by
    have heq : (s.container.change x).items = x.itemlist.map (·.label.item) := rfl
    rw [heq, hx]
    rcases hfront with rfl | hnil
    · cases s.container.isBrowseField
      · exact List.map_cons
      · exact List.map_append
    · have hnil' : s.container.items = [] := by rw [PagedContainer.items, hnil, List.map_nil]
      rw [hnil, hnil']
      cases front <;> cases s.container.isBrowseField <;> rfl
  have hsend : s.add thing.label.item (some x) =
      PageSession.onAddContainerItem { s with container := s.container.change x }
        thing.label.item :=
    if_pos hparent
  rw [hsend]
  intro v hv
  rw [onAddContainerItem, send]
  dsimp only
  cases hbrowse : s.container.isBrowseField with
  | false =>
    rw [hbrowse, if_neg Bool.false_ne_true] at hplace hitems
    have hfirst : v.index = 0 := by
      rw [← hwf.index v hv, Nat.mod_eq_of_lt (hplace v hv)]
    rw [hitems, PagedContainer.sendAddContainerItem_front (c := s.container.change x) hbrowse
      hplace, receive_flatMap (by simp) hwf.nodup hv]
    exact (h v hv).addFront hfirst
  | true =>
    rw [hbrowse, if_pos rfl] at hplace hitems
    have hsize : (s.container.change x).size = s.container.size + 1 := by
      rw [← PagedContainer.length_items, hitems, List.length_append, PagedContainer.length_items,
        List.length_singleton]
    rw [PagedContainer.sendAddContainerItem_back (c := s.container.change x) hbrowse
      hfits.positive hsize hfits.size hfits.pages hplace.2 fun _ _ _ => rfl,
      receive_flatMap (by simp) hwf.nodup hv, hitems]
    have hindex := hplace.1 v hv
    have hcapacity : (s.container.change x).capacity = s.container.capacity := rfl
    rw [hcapacity]
    rw [← PagedContainer.length_items] at hindex ⊢
    by_cases hlast : s.container.items.length < v.index + s.container.capacity
    · rw [if_pos hlast]
      exact (h v hv).addBack hindex hlast
    · have hpos := hfits.positive
      rw [if_neg hlast, List.getElem?_append_left (by omega)]
      exact (h v hv).addBehind hpos (Nat.not_lt.mp hlast)

theorem inSync_update {x : HolderTree.Change} {thing : HolderTree} {index : ℕ} (h : s.InSync)
    (hwf : s.WellFormed) (hfits : s.Fits) (hparent : s.container.parent ≠ .none)
    (hindex : index < s.container.size) (hx : x.itemlist = s.container.itemlist.set index thing) :
    (s.update index (some x)).InSync := by
  have hitems : (s.container.change x).items =
      s.container.items.set index thing.label.item := by
    have heq : (s.container.change x).items = x.itemlist.map (·.label.item) := rfl
    rw [heq, hx, List.map_set, PagedContainer.items]
  have hitem : (s.container.change x).items[index]? = some thing.label.item := by
    rw [hitems, List.getElem?_set_self (by rwa [PagedContainer.length_items])]
  have hsend : s.update index (some x) =
      PageSession.onUpdateContainerItem { s with container := s.container.change x } index
        thing.label.item := by
    rw [update]
    dsimp only
    rw [hitem]
    exact if_pos hparent
  have hslot : uint16 index = index := uint16_of_lt (hindex.trans hfits.size)
  rw [hsend]
  intro v hv
  have hcapacity : (s.container.change x).capacity = s.container.capacity := rfl
  have hend : uint16 ((v.index : ℤ) + s.container.capacity) = v.index + s.container.capacity := by
    rw [← Int.natCast_add, uint16_of_lt (hfits.pages v hv)]
  rw [onUpdateContainerItem, send]
  dsimp only
  rw [hslot, PagedContainer.sendUpdateContainerItem, receive_flatMap _ hwf.nodup hv, hitems,
    hcapacity, hend]
  · dsimp only
    split_ifs with hbefore hbehind
    · exact (h v hv).update_of_notMem (.inl hbefore)
    · exact (h v hv).update_of_notMem (.inr hbehind)
    · exact (h v hv).update_of_mem (Nat.not_lt.mp hbefore) (Nat.not_le.mp hbehind)
  · intro w p hp
    dsimp only at hp
    split_ifs at hp
    · cases hp
    · cases hp
    · rw [List.mem_singleton.mp hp]

theorem capacity_le (hwf : s.WellFormed) (hv : v ∈ s.openContainers)
    (hback : s.container.turnsBack v = true) : s.container.capacity ≤ v.index := by
  rw [PagedContainer.turnsBack, Bool.and_eq_true, decide_eq_true_iff] at hback
  exact Nat.le_of_dvd hback.1 (Nat.dvd_of_mod_eq_zero (hwf.index v hv))

/-- A page goes back by its capacity. -/
theorem firstIndex_eq (hwf : s.WellFormed) (hfits : s.Fits) (hv : v ∈ s.openContainers) :
    s.container.firstIndex v =
      if s.container.turnsBack v then v.index - s.container.capacity else v.index := by
  rw [PagedContainer.firstIndex]
  split
  · next hback =>
    have hle := capacity_le hwf hv hback
    have hlt := hfits.pages v hv
    rw [show (v.index : ℤ) - s.container.capacity = (v.index - s.container.capacity : ℕ) by omega,
      uint16_of_lt (by omega)]
  · rfl

theorem pagination_turnBack (hwf : s.WellFormed) (hv : v ∈ s.openContainers) :
    s.container.firstIndex v = 0 ∨ s.container.pagination = true := by
  rcases hwf.pagination v hv with hzero | hpagination
  · left
    have hstay : s.container.turnsBack v = false := by
      rw [PagedContainer.turnsBack, hzero]
      rfl
    rw [PagedContainer.firstIndex, hstay, if_neg Bool.false_ne_true, hzero]
  · exact .inr hpagination

/-- The page that the client shows when a removal is sent. -/
theorem shows_turnBack (hwf : s.WellFormed) (hfits : s.Fits) (hv : v ∈ s.openContainers)
    (h : Shows s.container.capacity s.container.items v page) :
    Shows s.container.capacity s.container.items (s.container.turnBack v)
      (((if s.container.turnsBack v then
        [s.container.sendContainer v.cid false (s.container.firstIndex v)] else []).map
          (·.message)).foldl Page.receive page) := by
  split
  · rw [List.map_singleton, List.foldl_cons, List.foldl_nil]
    exact PagedContainer.shows_sendContainer hfits.capacity (pagination_turnBack hwf hv)
  · next hback =>
    have hsame : s.container.turnBack v = v := by
      rw [PagedContainer.turnBack, firstIndex_eq hwf hfits hv, if_neg hback]
    rw [hsame]
    exact h

theorem inSync_remove {x : HolderTree.Change} {index : ℕ} (h : s.InSync)
    (hwf : s.WellFormed) (hfits : s.Fits)
    (hindex : index < s.container.size) (hbefore : s.RemovesBefore index)
    (hx : x.itemlist = s.container.itemlist.eraseIdx index) :
    InSync { s.onRemoveContainerItem index with container := s.container.change x } := by
  have hitems : (s.container.change x).items = s.container.items.eraseIdx index := by
    have heq : (s.container.change x).items = x.itemlist.map (·.label.item) := rfl
    rw [heq, hx, PagedContainer.items, List.eraseIdx_map]
  have hslot : uint16 index = index := uint16_of_lt (hindex.trans hfits.size)
  intro w hw
  obtain ⟨v, hv, rfl⟩ := List.mem_map.mp hw
  have hfirst := firstIndex_eq hwf hfits hv
  rw [onRemoveContainerItem, send]
  dsimp only
  rw [hslot, PagedContainer.sendRemoveContainerItem,
    show (s.container.turnBack v).cid = v.cid from rfl, receive_flatMap _ hwf.nodup hv]
  · dsimp only
    rw [List.map_append, List.foldl_append, hitems]
    have hend := hbefore v hv
    have hlast : s.container.getItemByIndex
        ((s.container.capacity : ℤ) + s.container.firstIndex v) =
          s.container.items[s.container.firstIndex v + s.container.capacity]? := by
      rw [← Int.natCast_add, PagedContainer.getItemByIndex_natCast, Nat.add_comm]
    rw [hlast]
    refine (shows_turnBack hwf hfits hv (h v hv)).remove hfits.positive ?_
    have hback : (s.container.turnBack v).index = s.container.firstIndex v := rfl
    rw [hback, hfirst]
    split
    · next hturns =>
      rw [if_pos hturns] at hend
      rwa [Nat.sub_add_cancel (capacity_le hwf hv hturns)]
    · next hturns => rwa [if_neg hturns] at hend
  · intro w p hp
    rcases List.mem_append.mp hp with hp | hp
    · split at hp
      · rw [List.mem_singleton.mp hp]
        rfl
      · cases hp
    · rw [List.mem_singleton.mp hp]

/-! ## Runs -/

theorem WellFormed.change {x : HolderTree.Change} (h : s.WellFormed) :
    WellFormed { s with container := s.container.change x } := ⟨h.nodup, h.index, h.pagination⟩

theorem WellFormed.send {packets : List PagePacket} (h : s.WellFormed) :
    (s.send packets).WellFormed := ⟨h.nodup, h.index, h.pagination⟩

theorem WellFormed.add {change : Option HolderTree.Change} (h : s.WellFormed) :
    (s.add item change).WellFormed := by
  cases change with
  | none => exact h
  | some x =>
    rw [PageSession.add]
    dsimp only
    split
    · exact h.change.send
    · exact h.change

theorem WellFormed.update {change : Option HolderTree.Change} {index : ℕ} (h : s.WellFormed) :
    (s.update index change).WellFormed := by
  cases change with
  | none => exact h
  | some x =>
    rw [PageSession.update]
    dsimp only
    split
    · exact h.change
    · split
      · exact h.change.send
      · exact h.change

theorem WellFormed.onRemoveContainerItem {index : ℕ} (h : s.WellFormed) (hfits : s.Fits) :
    (s.onRemoveContainerItem index).WellFormed where
  nodup := by
    rw [PageSession.onRemoveContainerItem]
    dsimp only
    rw [List.map_map]
    exact h.nodup
  index := by
    intro w hw
    obtain ⟨v, hv, rfl⟩ := List.mem_map.mp hw
    have hfirst := firstIndex_eq h hfits hv
    have hindex : (s.container.turnBack v).index = s.container.firstIndex v := rfl
    rw [hindex, hfirst]
    split
    · next hback =>
      exact (Nat.mod_eq_sub_mod (capacity_le h hv hback)).symm.trans (h.index v hv)
    · exact h.index v hv
  pagination := by
    intro w hw
    obtain ⟨v, hv, rfl⟩ := List.mem_map.mp hw
    exact pagination_turnBack h hv

/-- Another page is chosen in one place. -/
theorem seek {containerId : UInt8} {index : ℕ} (hwf : s.WellFormed)
    (hcapacity : s.container.capacity < 2 ^ 8) :
    (s.playerSeekInContainer containerId index).WellFormed ∧
      (s.InSync → (s.playerSeekInContainer containerId index).InSync) := by
  rw [playerSeekInContainer]
  split
  · exact ⟨hwf, id⟩
  next hopen =>
  split
  · exact ⟨hwf, id⟩
  next hpage =>
  rw [not_or, Bool.not_eq_false] at hopen
  rw [not_or, not_not] at hpage
  constructor
  · refine WellFormed.send ⟨?_, ?_, ?_⟩
    · have hcids : ∀ v ∈ s.openContainers,
          (if v.cid = containerId then { v with index := index } else v).cid = v.cid := by
        intro v _
        split <;> rfl
      have hnodup := hwf.nodup
      rw [← List.map_congr_left hcids] at hnodup
      dsimp only
      rw [List.map_map]
      exact hnodup
    · intro w hw
      obtain ⟨v, hv, rfl⟩ := List.mem_map.mp hw
      split
      · exact hpage.1
      · exact hwf.index v hv
    · exact fun w _ => .inr hopen.2
  · intro h w hw
    obtain ⟨v, hv, rfl⟩ := List.mem_map.mp hw
    dsimp only [send, List.foldl_cons, List.foldl_nil]
    split
    · next hcid =>
      obtain rfl := hcid
      have hself : receivePacket s.client
          (s.container.sendContainer v.cid s.container.hasParent index) v.cid =
            (s.client v.cid).receive
              (s.container.sendContainer v.cid s.container.hasParent index).message :=
        receivePacket_self _
      dsimp only
      rw [hself]
      exact PagedContainer.shows_sendContainer (v := { v with index := index }) hcapacity
        (.inr hopen.2)
    · next hcid =>
      rw [receivePacket_of_ne (Ne.symm hcid)]
      exact h v hv

theorem wellFormed_apply {a : Action} (hwf : s.WellFormed) (hok : KeepsPages types s a) :
    (s.apply types a).WellFormed := by
  cases a with
  | addThing index thing => exact hwf.add
  | addItemBack item =>
    rw [apply, addItemBack]
    exact hwf.add
  | updateThing index itemId count => exact hwf.update
  | replaceThing index thing => exact hwf.update
  | removeThing index count =>
    rw [apply, removeThing]
    dsimp only
    split
    · split
      · exact hwf.update
      · refine WellFormed.change ?_
        split
        · exact hwf.onRemoveContainerItem hok.1
        · exact hwf
    · exact hwf
  | playerSeekInContainer containerId index => exact (seek hwf hok.1.capacity).1

theorem inSync_apply {a : Action} (h : s.InSync) (hwf : s.WellFormed)
    (hok : KeepsPages types s a) : (s.apply types a).InSync := by
  obtain ⟨hfits, hok⟩ := hok
  cases a with
  | addThing index thing =>
    rw [apply, addThing, Container.addThing]
    split
    · exact h
    · next hindex => exact inSync_add h hwf hfits (hok (not_le.mp hindex)) rfl
  | addItemBack item => exact inSync_add h hwf hfits hok rfl
  | updateThing index itemId count =>
    rw [apply, updateThing, Container.updateThing]
    split
    · exact h
    · next hitem =>
      have hindex := (List.getElem?_eq_some_iff.mp hitem).1
      exact inSync_update h hwf hfits (hok hindex) hindex rfl
  | replaceThing index thing =>
    rw [apply, replaceThing, Container.replaceThing]
    split
    · exact h
    · next hitem =>
      have hindex := (List.getElem?_eq_some_iff.mp hitem).1
      exact inSync_update h hwf hfits (hok hindex) hindex rfl
  | removeThing index count =>
    rw [apply, removeThing, Container.removeThing]
    cases hthing : s.container.itemlist[index]? with
    | none =>
      have hitem : s.container.items[index]? = none := by
        rw [PagedContainer.items, List.getElem?_map, hthing, Option.map_none]
      rw [hitem]
      exact h
    | some thing =>
      have hitem : s.container.items[index]? = some thing.label.item := by
        rw [PagedContainer.items, List.getElem?_map, hthing, Option.map_some]
      have hindex := (List.getElem?_eq_some_iff.mp hthing).1
      obtain ⟨hparent, hremoves⟩ := hok _ hitem
      rw [hitem]
      dsimp only
      by_cases hpart : removesPart types thing.label.item count = true
      · rw [← removesPart, if_pos hpart]
        dsimp only
        rw [if_pos hpart]
        exact inSync_update h hwf hfits hparent hindex rfl
      · rw [← removesPart, if_neg hpart]
        dsimp only
        rw [if_neg hpart, if_pos hparent]
        exact inSync_remove h hwf hfits hindex (hremoves.resolve_left hpart) rfl
  | playerSeekInContainer containerId index => exact (seek hwf hfits.capacity).2 h

theorem inSync_sendContainers (hwf : s.WellFormed) (hcapacity : s.container.capacity < 2 ^ 8) :
    s.sendContainers.InSync := by
  intro v hv
  dsimp only [sendContainers, send]
  rw [List.map_eq_flatMap, receive_flatMap (fun w p hp => ?_) hwf.nodup hv]
  · rw [List.map_singleton, List.foldl_cons, List.foldl_nil]
    exact PagedContainer.shows_sendContainer hcapacity (hwf.pagination v hv)
  · rw [List.mem_singleton.mp hp]
    rfl

/-- From the pages as they are sent, every page stays in sync along a run whose steps keep it. -/
theorem inSync_of_keepsPages {run : List Action} (hwf : s.WellFormed)
    (hcapacity : s.container.capacity < 2 ^ 8)
    (hrun : Run.Steps (apply types) (KeepsPages types) s.sendContainers run) (n : ℕ) :
    ((run.take n).foldl (apply types) s.sendContainers).InSync := by
  rw [← List.take_append_drop n run, Run.steps_append] at hrun
  have hinv := Run.invariant (P := fun s : PageSession => s.InSync ∧ s.WellFormed)
    (fun s a h hok => ⟨inSync_apply h.1 h.2 hok, wellFormed_apply h.2 hok⟩)
    ⟨inSync_sendContainers hwf hcapacity, hwf.send⟩ hrun.1
  exact hinv.1

/-- An item of a class. -/
def plainItem (id : UInt16) : HolderTree := .node { item := { cls := .item, id := id } } []

/-- A backpack with one item, open in one place. -/
def backpack : PageSession where
  container :=
    { holder := { item := { cls := .container, id := 1988 }, maxSize := 20 }
      itemlist := [plainItem 2148] }
  openContainers := [⟨0, 0⟩]
  client _ := ⟨0, 0, []⟩

/-- Its steps: an item comes in and the other one is taken out. -/
def exchange : List Action := [.addThing (-1) (plainItem 2400), .removeThing 1 1]

theorem keepsPages_exchange : Run.Steps (apply ⟨fun _ => {}, fun _ => none⟩)
    (KeepsPages ⟨fun _ => {}, fun _ => none⟩) backpack.sendContainers exchange := by
  refine ⟨⟨⟨by decide, by decide, by decide, by decide⟩, fun _ => ⟨by decide, .inl rfl, ?_⟩⟩,
    ⟨⟨by decide, by decide, by decide, by decide⟩, fun _ _ => ⟨by decide, .inr ?_⟩⟩, trivial⟩
  · exact fun v hv => List.mem_singleton.mp hv ▸ by decide
  · exact fun v hv => List.mem_singleton.mp hv ▸ by decide

theorem inSync_exchange :
    ((exchange.take 2).foldl (apply ⟨fun _ => {}, fun _ => none⟩) backpack.sendContainers).InSync :=
  inSync_of_keepsPages ⟨by decide, by decide, by decide⟩ (by decide) keepsPages_exchange 2

/-- A depot chest with 33 items, open on its second page. -/
def depotChest : PageSession where
  container :=
    { holder := { item := { cls := .depotChest, id := 25453 }, maxSize := 32 }
      pagination := true
      itemlist := (List.range 33).map fun n => plainItem (UInt16.ofNat (2400 + n)) }
  openContainers := [⟨0, 32⟩]
  client _ := ⟨0, 0, []⟩

/-- What comes into the chest pushes the last item of the first page onto the second one, but
the client gets the item before it. -/
theorem not_inSync_depotChest : depotChest.WellFormed ∧ depotChest.sendContainers.Fits ∧
    ¬ (depotChest.sendContainers.apply ⟨fun _ => {}, fun _ => none⟩
      (.addThing (-1) (plainItem 2148))).InSync := by
  refine ⟨⟨by decide, by decide, by decide⟩, ⟨by decide, by decide, by decide, by decide⟩, ?_⟩
  intro h
  have hwindow := (h ⟨0, 32⟩ List.mem_cons_self).window
  revert hwindow
  decide +kernel

end PageSession

end OTServBR
