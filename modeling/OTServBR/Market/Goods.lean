import OTServBR.Item.Tree
import OTServBR.Lib.Walk
import OTServBR.Market.Basic

/-! # Goods of the market

What an offer sells is taken out of the depot of a player and what a player
gets is put into an inbox. Items of one ware are looked for breadth first from
the locker; whole stacks and parts of stacks are removed until the amount is
reached. Goods given are created anew, in stacks of a hundred or one by one.
-/

namespace OTServBR.Market

variable (types : Items)

namespace Obj

variable (o : Obj)

def wareId : UInt16 := (types.getItemType o.item.id).wareId

/-- An item of a ware in the form in which it is sold; a container also has its usual size. -/
def isMarketItem (wareId : UInt16) : Bool :=
  let itemType := types.getItemType o.item.id
  itemType.wareId == wareId &&
    (!o.item.cls.isContainer ||
      (itemType.isContainer && o.maxSize == itemType.maxItems.toUInt32)) &&
    o.item.hasMarketAttributes types

/-- A stack with some of its items gone. -/
def without (count : ℕ) : Obj :=
  { o with item := o.item.setItemCount (o.item.getItemCount - count) }

end Obj

namespace State

variable (st : State)

/-! ## Taking goods out of a depot -/

def getItemList (container : ℕ) : List Obj := Walk.children Obj.parent st.objs.rows container

/-- A container that is not empty is searched, not sold. -/
def opens (o : Obj) : Bool := o.item.cls.isContainer && !(st.getItemList o.ref).isEmpty

/-- The items of a locker in the order in which the two loops of `getMarketItemList` see them. -/
def depotItems (depotLocker : ℕ) : List Obj :=
  Walk.walk Obj.ref Obj.parent st.opens st.objs.rows (st.objs.rows.length + 1) [depotLocker]

/-- The body of the loops: items are put in front until their 16-bit count is sufficient, and
without that there is no list at all. -/
def collect (wareId sufficientCount : UInt16) : List Obj → List Obj → UInt16 → List Obj
  | [], _, _ => []
  | item :: items, itemList, count =>
    if st.opens item || !item.isMarketItem types wareId then
      collect wareId sufficientCount items itemList count
    else
      let itemList := item :: itemList
      let count := count + UInt16.ofNat (item.item.countByType types (-1))
      if sufficientCount ≤ count then itemList
      else collect wareId sufficientCount items itemList count

def getMarketItemList (wareId sufficientCount : UInt16) (depotLocker : ℕ) : List Obj :=
  st.collect types wareId sufficientCount (st.depotItems depotLocker) [] 0

/-- `Game::internalRemoveItem`; without a count the whole item goes. A refusal changes nothing
and the market does not look at it. -/
def internalRemoveItem (item : Obj) (count : Option ℕ) : State :=
  let count := count.getD item.item.getItemCount
  let stackable := item.item.isStackable types
  if item.parent.isNone || count == 0 || (stackable && item.item.getItemCount < count) ||
      !item.item.cls.canRemove then st
  else if stackable && count != item.item.getItemCount then
    { st with objs := st.objs.modify item.ref (fun o => o.without count) fun _ => rfl }
  else { st with objs := st.objs.erase item.ref }

/-- The loop over the list of a stackable ware. -/
def removeStacks (st : State) : List Obj → UInt16 → State
  | [], _ => st
  | item :: items, tmpAmount =>
    let removeCount := min tmpAmount (UInt16.ofNat item.item.getItemCount)
    let st := st.internalRemoveItem types item (some removeCount.toNat)
    if tmpAmount - removeCount == 0 then st else removeStacks st items (tmpAmount - removeCount)

/-- The loop over the list of any other ware. -/
def removeItems (st : State) (itemList : List Obj) : State :=
  itemList.foldl (fun st item => st.internalRemoveItem types item none) st

/-- How a seller loses items; there must be enough of them. -/
def takeItems (it : ItemType) (amount : UInt16) (depotLocker : ℕ) : Option State :=
  let itemList := st.getMarketItemList types it.wareId amount depotLocker
  if itemList.isEmpty then none
  else if it.stackable then some (st.removeStacks types itemList amount)
  else some (st.removeItems types itemList)

/-- How a seller loses goods, store coins or items. -/
def takeGoods (it : ItemType) (amount : UInt16) (seller : Player) : Option State :=
  if it.id == ItemId.storeCoin then
    if st.getCoinBalance seller.account < amount.toUInt32 then none
    else some (st.removeCoins seller.account amount.toNat)
  else st.takeItems types it amount seller.depotLocker

/-! ## Putting goods into an inbox -/

/-- `internalAddItem` with an inbox, no index and `FLAG_NOLIMIT`: an inbox is locked, so nothing
is stacked and the item goes to the front. -/
def addToInbox (inbox : ℕ) (item : Item) : State :=
  { st with
    objs := st.objs.insert
      (fun ref => ⟨ref, some inbox, item, (types.getItemType item.id).maxItems.toUInt32⟩)
      fun _ => rfl }

/-- The loop over stacks. It ends when `tmpAmount` is used up or an item cannot be made. -/
def giveStacks (id : UInt16) (inbox : ℕ) (st : State) : ℕ → UInt16 → State
  | 0, _ => st
  | fuel + 1, tmpAmount =>
    if tmpAmount == 0 then st
    else
      let stackCount := min 100 tmpAmount
      match Item.createItem types id stackCount with
      | none => st
      | some item => giveStacks id inbox (st.addToInbox types inbox item) fuel (tmpAmount - stackCount)

/-- The loop over single items. -/
def giveUnits (id : UInt16) (inbox : ℕ) (subType : UInt16) (st : State) : ℕ → State
  | 0 => st
  | n + 1 =>
    match Item.createItem types id subType with
    | none => st
    | some item => giveUnits id inbox subType (st.addToInbox types inbox item) n

/-- How a player gets items. -/
def giveItems (it : ItemType) (amount : UInt16) (inbox : ℕ) : State :=
  if it.stackable then st.giveStacks types it.id inbox amount.toNat amount
  else
    let subType : UInt16 := if it.charges != 0 then it.charges.toUInt16 else 65535
    st.giveUnits types it.id inbox subType amount.toNat

/-- How a player gets goods, store coins or items. -/
def giveGoods (it : ItemType) (amount : UInt16) (player : Player) : State :=
  if it.id == ItemId.storeCoin then st.addCoins player.account amount.toNat
  else st.giveItems types it amount player.inbox

end State

/-! ## Goods and books -/

/-- Two states that differ in items and waiting tasks only. -/
structure SameBooks (st st' : State) : Prop where
  players : st'.players = st.players
  accounts : st'.accounts = st.accounts
  offers : st'.offers = st.offers
  expiredOffers : st'.expiredOffers = st.expiredOffers
  now : st'.now = st.now

section Books

variable {types} {st st₁ st₂ : State}

theorem SameBooks.refl : SameBooks st st := ⟨rfl, rfl, rfl, rfl, rfl⟩

theorem SameBooks.trans (h : SameBooks st st₁) (h' : SameBooks st₁ st₂) : SameBooks st st₂ where
  players := h'.players.trans h.players
  accounts := h'.accounts.trans h.accounts
  offers := h'.offers.trans h.offers
  expiredOffers := h'.expiredOffers.trans h.expiredOffers
  now := h'.now.trans h.now

theorem sameBooks_internalRemoveItem (item : Obj) (count : Option ℕ) :
    SameBooks st (st.internalRemoveItem types item count) := by
  unfold State.internalRemoveItem
  dsimp only
  split
  · exact .refl
  · split <;> exact ⟨rfl, rfl, rfl, rfl, rfl⟩

theorem sameBooks_removeStacks (l : List Obj) (n : UInt16) :
    SameBooks st (st.removeStacks types l n) := by
  induction l generalizing st n with
  | nil => exact .refl
  | cons item items ih =>
    unfold State.removeStacks
    dsimp only
    split
    · exact sameBooks_internalRemoveItem _ _
    · exact (sameBooks_internalRemoveItem _ _).trans (ih _)

theorem sameBooks_removeItems (l : List Obj) : SameBooks st (st.removeItems types l) := by
  induction l generalizing st with
  | nil => exact .refl
  | cons item items ih => exact (sameBooks_internalRemoveItem item none).trans ih

theorem sameBooks_takeGoods {it : ItemType} {amount : UInt16} {seller : Player}
    (h : st.takeGoods types it amount seller = some st₁) : SameBooks st st₁ := by
  unfold State.takeGoods State.takeItems at h
  dsimp only at h
  split at h
  · split at h
    · cases h
    · obtain rfl := Option.some.inj h
      exact ⟨rfl, rfl, rfl, rfl, rfl⟩
  · split at h
    · cases h
    · split at h
      · obtain rfl := Option.some.inj h
        exact sameBooks_removeStacks _ _
      · obtain rfl := Option.some.inj h
        exact sameBooks_removeItems _

theorem sameBooks_addToInbox (inbox : ℕ) (item : Item) :
    SameBooks st (st.addToInbox types inbox item) := ⟨rfl, rfl, rfl, rfl, rfl⟩

theorem sameBooks_giveStacks (id : UInt16) (inbox fuel : ℕ) (n : UInt16) :
    SameBooks st (st.giveStacks types id inbox fuel n) := by
  induction fuel generalizing st n with
  | zero => exact .refl
  | succ fuel ih =>
    unfold State.giveStacks
    dsimp only
    split
    · exact .refl
    · split
      · exact .refl
      · exact (sameBooks_addToInbox inbox _).trans (ih _)

theorem sameBooks_giveUnits (id : UInt16) (inbox : ℕ) (subType : UInt16) (n : ℕ) :
    SameBooks st (st.giveUnits types id inbox subType n) := by
  induction n generalizing st with
  | zero => exact .refl
  | succ n ih =>
    unfold State.giveUnits
    split
    · exact .refl
    · exact (sameBooks_addToInbox inbox _).trans ih

variable (types st) in
theorem sameBooks_giveItems (it : ItemType) (amount : UInt16) (inbox : ℕ) :
    SameBooks st (st.giveItems types it amount inbox) := by
  unfold State.giveItems
  split
  · exact sameBooks_giveStacks _ _ _ _
  · exact sameBooks_giveUnits _ _ _ _

variable (types st) in
theorem sameBooks_giveGoods (it : ItemType) (amount : UInt16) (player : Player) :
    SameBooks st (st.giveGoods types it amount player) := by
  unfold State.giveGoods
  split
  · exact ⟨rfl, rfl, rfl, rfl, rfl⟩
  · exact sameBooks_giveItems _ _ _ _ _

end Books

/-! ## Wares -/

/-- The type under which a ware is offered: the one of the client id that the wares of a sprite
have. -/
def IsWare (it : ItemType) : Prop :=
  ∃ spriteId, (types.getItemIdByClientId spriteId).id ≠ 0 ∧
    (types.getItemIdByClientId spriteId).wareId ≠ 0 ∧
    it = types.getItemIdByClientId (types.getItemIdByClientId spriteId).wareId ∧
    it.id ≠ 0 ∧ it.wareId ≠ 0

/-- What the item tables say about wares: such a type is created under its own id as an item
that can be removed, a stackable one as a plain item, and the items of a ware are all
stackable or all not. -/
structure WareTable : Prop where
  own_id : ∀ id, (types.getItemType id).id ≠ 0 → (types.getItemType id).id = id
  not_deprecated : ∀ it, IsWare types it → it.group ≠ .deprecated
  plain : ∀ it, IsWare types it → Item.plainId it.id it.id = it.id
  removable : ∀ it, IsWare types it → (Item.classOf it).canRemove = true
  stackable_plain : ∀ it, IsWare types it → it.stackable = true →
    Item.classOf it = .item ∧ it.isFluidContainer = false ∧ it.isSplash = false
  stackable_eq : ∀ it, IsWare types it → ∀ id,
    (types.getItemType id).wareId = it.wareId → (types.getItemType id).stackable = it.stackable

end OTServBR.Market
