import OTServBR.Market.Gold
import OTServBR.Market.Stock

/-! # Wares

The units of a ware are those that players own, in lockers and inboxes or on
their accounts, and those that open sell offers hold. A step only moves them,
unless an expired offer is of store coins, which come back as items, or was
accepted in part between its query and the callback.
-/

namespace OTServBR.Market

/-- The store coin of the accounts, or the items of a ware id. -/
inductive Ware
  | coin
  | item (wareId : UInt16)
  deriving DecidableEq, Repr

def Ware.of (types : Items) (itemId : UInt16) : Ware :=
  if itemId = ItemId.storeCoin then .coin else .item (types.getItemType itemId).wareId

/-- What a number of units of an offer holds of a ware. -/
def MarketOffer.goods (types : Items) (w : Ware) (o : MarketOffer) (amount : UInt16) : ℤ :=
  if o.type = .sell ∧ w = Ware.of types o.itemId then amount.toNat else 0

namespace State

section Defs

variable (types : Items) (st : State)

/-- The units that players own; waiting changes of store coins count as made. -/
def owned : Ware → ℤ
  | .coin => st.accounts.sum Account.coins + (st.databaseTasks.map CoinTask.amount).sum
  | .item w => st.unitsStored types w

def offered (w : Ware) : ℤ := st.offers.sum fun o => o.goods types w o.amount

def unitsOf (w : Ware) : ℤ := st.owned types w + st.offered types w

def inboxOf (guid : UInt32) : Option ℕ := (st.players.find guid).map Player.inbox

/-- `n` units of the ware of an item id are gone, all from items of the depot or all coins. -/
structure Lost (st' : State) (itemId : UInt16) (depot : List Obj) (n : ℕ) : Prop where
  owned : ∀ w, st'.owned types w + (if w = Ware.of types itemId then (n : ℤ) else 0) =
    st.owned types w
  kept : ∀ o ∈ st.objs.rows, o ∉ depot → o ∈ st'.objs.rows

/-- `n` units of the ware of an item id are new, all in new items of the inbox or all coins. -/
structure Gained (st' : State) (itemId : UInt16) (inbox n : ℕ) : Prop where
  owned : ∀ w, st'.owned types w = st.owned types w +
    if w = Ware.of types itemId then (n : ℤ) else 0
  kept : ∀ o ∈ st.objs.rows, o ∈ st'.objs.rows
  fresh : ∀ o ∈ st'.objs.rows, o ∈ st.objs.rows ∨
    (o.parent = some inbox ∧ ∃ count, Item.createItem types itemId count = some o.item)

/-- How goods are kept: items as they are stored, with the lockers of players above all of them,
accounts for players and tasks, and offers of wares only. -/
structure Stocked : Prop where
  stored : ∀ o ∈ st.objs.rows, o.Stored types
  locker : ∀ p ∈ st.players.rows, p.depotLocker < st.objs.next ∧
    ∀ o ∈ st.objs.rows, o.ref ≠ p.depotLocker
  account : ∀ p ∈ st.players.rows, (st.accounts.find p.account).isSome
  task : ∀ t ∈ st.databaseTasks, (st.accounts.find t.account).isSome
  ware : ∀ o ∈ st.offers.rows, IsWare types (types.getItemType o.itemId) ∧
    (types.getItemType o.itemId).id = o.itemId

end Defs

variable {types : Items} {env : Env} {st st₁ st' : State} {guid : UInt32} {w : Ware}

theorem IsWare.of_eq (htypes : WareTable types) {it : ItemType} (hit : IsWare types it) :
    Ware.of types it.id = if it.id = ItemId.storeCoin then .coin else .item it.wareId := by
  rw [Ware.of, hit.getItemType htypes]

/-! ## Stock under the single updates -/

theorem Stocked.modifyPlayer (h : st.Stocked types) {f : Player → Player}
    (hf : ∀ p, (f p).guid = p.guid)
    (hkeep : ∀ p, (f p).account = p.account ∧ (f p).depotLocker = p.depotLocker) :
    (st.modifyPlayer guid f hf).Stocked types where
  stored := h.stored
  locker := by
    intro p hp
    obtain ⟨q, hq, rfl⟩ := (Table.mem_modify hf).mp hp
    split
    · rw [(hkeep q).2]
      exact h.locker q hq
    · exact h.locker q hq
  account := by
    intro p hp
    obtain ⟨q, hq, rfl⟩ := (Table.mem_modify hf).mp hp
    split
    · rw [(hkeep q).1]
      exact h.account q hq
    · exact h.account q hq
  task := h.task
  ware := h.ware

theorem Stocked.removeMoney (h : st.Stocked types) (cost : UInt64) (useBalance : Bool) :
    (st.removeMoney env guid cost useBalance).Stocked types :=
  h.modifyPlayer _ fun _ => ⟨rfl, rfl⟩

theorem Stocked.pay (h : st.Stocked types) (guid : UInt32) (totalPrice : UInt64) :
    (st.pay env guid totalPrice).Stocked types := by
  refine h.modifyPlayer _ fun p => ?_
  unfold Player.pay
  split <;> exact ⟨rfl, rfl⟩

theorem Stocked.increaseBankBalance (h : st.Stocked types) (guid : UInt32) (n : UInt64) :
    (st.increaseBankBalance guid n).Stocked types :=
  h.modifyPlayer (f := fun p => { p with bankBalance := p.bankBalance + n }) _ fun _ => ⟨rfl, rfl⟩

theorem Stocked.updateMarketExhausted (h : st.Stocked types) :
    (st.updateMarketExhausted guid).Stocked types :=
  h.modifyPlayer (f := fun p => { p with lastMarketInteraction := st.now }) _ fun _ => ⟨rfl, rfl⟩

theorem Stocked.sendMarketLeave (h : st.Stocked types) : (st.sendMarketLeave guid).Stocked types :=
  h.modifyPlayer (f := fun p => { p with inMarket := false }) _ fun _ => ⟨rfl, rfl⟩

theorem Stocked.createOffer (htypes : WareTable types) (h : st.Stocked types) {it : ItemType}
    (hit : IsWare types it) {action : MarketAction} {amount : UInt16} {price : UInt32}
    {anonymous : Bool} :
    (st.createOffer guid action it.id amount price anonymous).Stocked types where
  stored := h.stored
  locker := h.locker
  account := h.account
  task := h.task
  ware := by
    intro o ho
    rcases AutoTable.mem_insert.mp ho with rfl | ho
    · dsimp only
      rw [hit.getItemType htypes]
      exact ⟨hit, rfl⟩
    · exact h.ware o ho

theorem Stocked.acceptOffer (h : st.Stocked types) (offerId : ℕ) (amount : UInt16) :
    (st.acceptOffer offerId amount).Stocked types where
  stored := h.stored
  locker := h.locker
  account := h.account
  task := h.task
  ware := by
    intro o ho
    obtain ⟨o', ho', rfl⟩ := (AutoTable.mem_modify
      (f := fun o : MarketOffer => { o with amount := o.amount - amount }) fun _ => rfl).mp ho
    split <;> exact h.ware o' ho'

theorem Stocked.deleteOffer (h : st.Stocked types) (offerId : ℕ) :
    (st.deleteOffer offerId).Stocked types where
  stored := h.stored
  locker := h.locker
  account := h.account
  task := h.task
  ware o ho := h.ware o (AutoTable.mem_erase.mp ho).1

theorem Stocked.addCoins (h : st.Stocked types) {p : Player} (hp : p ∈ st.players.rows) (n : ℤ) :
    (st.addCoins p.account n).Stocked types where
  stored := h.stored
  locker := h.locker
  account := h.account
  task := by
    intro t ht
    rcases List.mem_append.mp ht with ht | ht
    · exact h.task t ht
    · obtain rfl := List.mem_singleton.mp ht
      exact h.account p hp
  ware := h.ware

theorem Stocked.runTask (h : st.Stocked types) : st.runTask.Stocked types := by
  unfold State.runTask
  split
  · exact h
  · next task tasks htasks =>
    have hkeys : ∀ id, ((st.accounts.modify task.account
        (fun a => { a with coins := a.coins + task.amount }) fun _ => rfl).find id).isSome =
          (st.accounts.find id).isSome := fun id => Table.find_modify_isSome _
    exact ⟨h.stored, h.locker, fun p hp => (hkeys _).trans (h.account p hp),
      fun t ht => (hkeys _).trans (h.task t (by rw [htasks]; exact List.mem_cons_of_mem _ ht)),
      h.ware⟩

theorem owned_addCoins (account : UInt32) (n : ℤ) :
    (st.addCoins account n).owned types w = st.owned types w + if w = .coin then n else 0 := by
  cases w with
  | coin => simp [owned, addCoins, add_assoc]
  | item w => simp [owned, addCoins, unitsStored]

theorem owned_runTask (h : st.Stocked types) : st.runTask.owned types w = st.owned types w := by
  unfold runTask
  split
  · rfl
  · next task tasks htasks =>
    cases w with
    | coin =>
      obtain ⟨a, ha⟩ := Option.isSome_iff_exists.mp (h.task task (by simp [htasks]))
      have hsum := Table.sum_modify (v := Account.coins)
        (f := fun a => { a with coins := a.coins + task.amount }) (fun _ => rfl) ha
      simp only [owned, htasks, List.map_cons, List.sum_cons]
      dsimp only at hsum
      omega
    | item w => rfl

/-! ## Taking and giving -/

theorem lost_takeGoods (htypes : WareTable types) (hstock : st.Stocked types) {it : ItemType}
    (hit : IsWare types it) {amount : UInt16} (hpos : amount ≠ 0) (hmax : amount ≤ 64000)
    {seller : Player} (hseller : seller ∈ st.players.rows)
    (h : st.takeGoods types it amount seller = some st') :
    st.Lost types st' it.id (st.depotItems seller.depotLocker) amount.toNat ∧
      st'.Stocked types := by
  have hof := IsWare.of_eq htypes hit
  have hbooks := sameBooks_takeGoods h
  unfold takeGoods at h
  split at h
  · next hcoin =>
    rw [beq_iff_eq] at hcoin
    split at h
    · cases h
    · obtain rfl := Option.some.inj h
      rw [if_pos hcoin] at hof
      refine ⟨⟨fun v => ?_, fun o ho _ => ho⟩, hstock.addCoins hseller _⟩
      rw [removeCoins, owned_addCoins, hof]
      split_ifs <;> omega
  · next hcoin =>
    rw [beq_iff_eq] at hcoin
    rw [if_neg hcoin] at hof
    have hrem := removed_takeItems htypes hstock.stored hit hpos hmax
      (hstock.locker seller hseller).2 h
    refine ⟨⟨fun v => ?_, hrem.kept⟩, hrem.stored hstock.stored, ?_, ?_, ?_, ?_⟩
    · rw [hof]
      cases v with
      | coin => simp [owned, hbooks.accounts, hrem.tasks]
      | item v =>
        have hunits := hrem.units v
        simp only [owned, Ware.item.injEq]
        split_ifs at hunits ⊢ <;> omega
    · intro p hp
      rw [hbooks.players] at hp
      rw [hrem.next]
      refine ⟨(hstock.locker p hp).1, fun o ho => ?_⟩
      obtain ⟨o', ho', rfl | ⟨-, c, rfl⟩⟩ := hrem.left o ho
      · exact (hstock.locker p hp).2 o ho'
      · exact (hstock.locker p hp).2 o' ho'
    · intro p hp
      rw [hbooks.players] at hp
      rw [hbooks.accounts]
      exact hstock.account p hp
    · intro t ht
      rw [hrem.tasks] at ht
      rw [hbooks.accounts]
      exact hstock.task t ht
    · intro o ho
      rw [hbooks.offers] at ho
      exact hstock.ware o ho

theorem gained_giveItems (htypes : WareTable types) (hstock : st.Stocked types) {it : ItemType}
    (hit : IsWare types it) (hcoin : it.id ≠ ItemId.storeCoin) (amount : UInt16) (inbox : ℕ) :
    st.Gained types (st.giveItems types it amount inbox) it.id inbox amount.toNat ∧
      (st.giveItems types it amount inbox).Stocked types := by
  have hof := IsWare.of_eq htypes hit
  rw [if_neg hcoin] at hof
  have hbooks := sameBooks_giveItems types st it amount inbox
  have hadd := added_giveItems st inbox htypes hit amount
  refine ⟨⟨fun v => ?_, hadd.kept, fun o ho => ?_⟩, fun o ho => ?_, ?_, ?_, ?_, ?_⟩
  · rw [hof]
    cases v with
    | coin => simp [owned, hbooks.accounts, hadd.tasks]
    | item v =>
      have hunits := hadd.units v
      simp only [owned, Ware.item.injEq]
      split_ifs at hunits ⊢ <;> omega
  · rcases hadd.fresh o ho with ho | ⟨-, hparent, -, hcreate⟩
    · exact .inl ho
    · exact .inr ⟨hparent, hcreate⟩
  · rcases hadd.fresh o ho with ho | ⟨-, -, hs, -⟩
    · exact hstock.stored o ho
    · exact hs
  · intro p hp
    rw [hbooks.players] at hp
    obtain ⟨hlt, hne⟩ := hstock.locker p hp
    refine ⟨hlt.trans_le hadd.next, fun o ho => ?_⟩
    rcases hadd.fresh o ho with ho | ⟨hnew, -⟩
    · exact hne o ho
    · omega
  · intro p hp
    rw [hbooks.players] at hp
    rw [hbooks.accounts]
    exact hstock.account p hp
  · intro t ht
    rw [hadd.tasks] at ht
    rw [hbooks.accounts]
    exact hstock.task t ht
  · intro o ho
    rw [hbooks.offers] at ho
    exact hstock.ware o ho

theorem gained_giveGoods (htypes : WareTable types) (hstock : st.Stocked types) {it : ItemType}
    (hit : IsWare types it) (amount : UInt16) {player : Player}
    (hplayer : ∃ p ∈ st.players.rows, p.account = player.account) :
    st.Gained types (st.giveGoods types it amount player) it.id player.inbox amount.toNat ∧
      (st.giveGoods types it amount player).Stocked types := by
  unfold giveGoods
  split
  · next hcoin =>
    rw [beq_iff_eq] at hcoin
    have hof := IsWare.of_eq htypes hit
    rw [if_pos hcoin] at hof
    obtain ⟨p, hp, haccount⟩ := hplayer
    rw [← haccount]
    refine ⟨⟨fun v => ?_, fun o ho => ho, fun o ho => .inl ho⟩, hstock.addCoins hp _⟩
    rw [owned_addCoins, hof]
  · next hcoin => exact gained_giveItems htypes hstock hit (by simpa using hcoin) amount _

/-! ## Offers -/

theorem offered_eq (h : st'.offers = st.offers) : st'.offered types w = st.offered types w := by
  rw [offered, offered, h]

variable (types st guid w) in
theorem offered_createOffer (action : MarketAction) (itemId amount : UInt16) (price : UInt32)
    (anonymous : Bool) :
    (st.createOffer guid action itemId amount price anonymous).offered types w =
      (if action = .sell ∧ w = Ware.of types itemId then (amount.toNat : ℤ) else 0) +
        st.offered types w :=
  AutoTable.sum_insert

variable (types w) in
theorem offered_deleteOffer {o : MarketOffer} (ho : o ∈ st.offers.rows) :
    (st.deleteOffer o.id).offered types w + o.goods types w o.amount = st.offered types w :=
  AutoTable.sum_erase (v := fun o : MarketOffer => o.goods types w o.amount) (Table.find_self ho)

variable (types w) in
theorem offered_closeUnits {o : MarketOffer} {amount : UInt16} (ho : o ∈ st.offers.rows)
    (hle : amount ≤ o.amount) :
    (if o.amount = amount then st.deleteOffer o.id else st.acceptOffer o.id amount).offered types w +
      o.goods types w amount = st.offered types w := by
  split
  · next heq =>
    subst heq
    exact offered_deleteOffer types w ho
  · have hsum := AutoTable.sum_modify
      (f := fun o : MarketOffer => { o with amount := o.amount - amount })
      (v := fun o : MarketOffer => o.goods types w o.amount) (fun _ => rfl) (Table.find_self ho)
    have hnat := UInt16.le_iff_toNat_le.mp hle
    have hrest : ({ o with amount := o.amount - amount } : MarketOffer).goods types w
        (o.amount - amount) + o.goods types w amount = o.goods types w o.amount := by
      unfold MarketOffer.goods
      dsimp only
      rw [UInt16.toNat_sub_of_le _ _ hle]
      split_ifs <;> omega
    unfold offered acceptOffer
    dsimp only at hsum ⊢
    omega

/-! ## Goods of the requests -/

/-- The steps that stay clear of the defects: the sell offers an expiry still finds open are not
of store coins and have the amount that the query read. -/
def GoodsSafe (st : State) : Event → Prop
  | .processExpired =>
    ∀ rows ∈ st.expiredOffers.head?, ∀ row ∈ rows, row.type = .sell →
      ∀ o ∈ st.offers.rows, o.id = row.id → row.itemId ≠ ItemId.storeCoin ∧ o.amount = row.amount
  | _ => True

/-- A new sell offer takes its amount out of the depot of its owner or off its account. -/
theorem goods_create (htypes : WareTable env.types) (hstock : st.Stocked env.types)
    {playerId : UInt32} {type : UInt8} {spriteId amount : UInt16} {price : UInt32}
    {anonymous : Bool}
    (h : st.playerCreateMarketOffer env playerId type spriteId amount price anonymous = some st') :
    st'.Stocked env.types ∧ (∀ w, st'.unitsOf env.types w = st.unitsOf env.types w) ∧
      (st'.offers.next = st.offers.next + 1 → MarketAction.ofUInt8 type = some .sell →
        ∃ player it, st.players.find playerId = some player ∧ IsWare env.types it ∧
          st.Lost env.types st' it.id (st.depotItems player.depotLocker) amount.toNat) := by
  obtain ⟨player, hfind, rfl, rfl | ⟨action, it, st₁, haction, hit, hpos, hmax, hplace, rfl⟩⟩ :=
    create_cases h
  · refine ⟨hstock.sendMarketLeave, fun _ => rfl, fun hnext => ?_⟩
    have hsame : (st.sendMarketLeave player.guid).offers.next = st.offers.next := rfl
    omega
  · rcases hplace with ⟨rfl, hplace⟩ | ⟨rfl, hplace⟩
    · obtain ⟨-, st₀, htake, rfl⟩ := placeSellOffer_cases hplace
      obtain ⟨hlost, hstock₀⟩ := lost_takeGoods htypes hstock hit hpos hmax
        (Table.mem_of_find hfind) htake
      refine ⟨((hstock₀.removeMoney _ _).createOffer htypes hit).updateMarketExhausted, fun w => ?_,
        fun _ _ => ⟨player, it, hfind, hit, hlost.owned, hlost.kept⟩⟩
      have hunits := hlost.owned w
      have hnew := offered_createOffer env.types
        (st₀.removeMoney env player.guid (env.offerFee price amount) true) player.guid w .sell it.id
        amount price anonymous
      have hold : (st₀.removeMoney env player.guid (env.offerFee price amount) true).offered
          env.types w = st.offered env.types w := offered_eq (sameBooks_takeGoods htake).offers
      rw [hold] at hnew
      change st₀.owned env.types w + ((st₀.removeMoney env player.guid (env.offerFee price amount)
        true).createOffer player.guid .sell it.id amount price anonymous).offered env.types w =
          st.owned env.types w + st.offered env.types w
      simp only [true_and] at hnew
      omega
    · obtain ⟨-, rfl⟩ := placeBuyOffer_cases hplace
      refine ⟨((hstock.removeMoney _ _).createOffer htypes hit).updateMarketExhausted, fun w => ?_,
        fun _ hsell => ?_⟩
      · have hnew := offered_createOffer env.types
          (st.removeMoney env player.guid
            ((price * amount.toUInt32).toUInt64 + env.offerFee price amount) true)
          player.guid w .buy it.id amount price anonymous
        rw [if_neg (by simp), zero_add] at hnew
        exact congrArg (st.owned env.types w + ·) hnew
      · rw [haction] at hsell
        cases hsell

/-- A cancelled sell offer gives its amount to its owner. -/
theorem goods_cancel (htypes : WareTable env.types) (hstock : st.Stocked env.types)
    {playerId timestamp : UInt32} {counter : UInt16}
    (h : st.playerCancelMarketOffer env playerId timestamp counter = some st') :
    st'.Stocked env.types ∧ (∀ w, st'.unitsOf env.types w = st.unitsOf env.types w) ∧
      ∃ o ∈ st.offers.rows, o.type = .sell →
        ∃ inbox, st.inboxOf o.playerId = some inbox ∧
          st.Gained env.types st' o.itemId inbox o.amount.toNat := by
  obtain ⟨player, offer, hfind, rfl, hmem, hown, st₁, hrefund, rfl⟩ := cancel_cases h
  have hware := hstock.ware offer hmem
  have hrefunded : st₁.offers = st.offers ∧ st₁.Stocked env.types ∧
      (∀ w, st₁.owned env.types w = st.owned env.types w + offer.goods env.types w offer.amount) ∧
      (offer.type = .sell →
        st.Gained env.types st₁ offer.itemId player.inbox offer.amount.toNat) := by
    unfold refundOffer at hrefund
    split at hrefund
    · next htype =>
      obtain rfl := Option.some.inj hrefund
      refine ⟨rfl, hstock.increaseBankBalance _ _, fun w => ?_, fun hsell => ?_⟩
      · rw [MarketOffer.goods, if_neg (by simp [htype]), add_zero]
        rfl
      · rw [htype] at hsell
        cases hsell
    · next htype =>
      dsimp only at hrefund
      split at hrefund
      · cases hrefund
      · obtain rfl := Option.some.inj hrefund
        obtain ⟨hgain, hstock₁⟩ := gained_giveGoods htypes hstock hware.1 offer.amount
          ⟨player, Table.mem_of_find hfind, rfl⟩
        rw [hware.2] at hgain
        refine ⟨(sameBooks_giveGoods _ _ _ _ _).offers, hstock₁, fun w => ?_, fun _ => hgain⟩
        rw [hgain.owned, MarketOffer.goods]
        simp only [htype, true_and]
  obtain ⟨hoffers, hstock₁, howned, hgain⟩ := hrefunded
  have hmem₁ : offer ∈ st₁.offers.rows := by rw [hoffers]; exact hmem
  rw [moveOfferToHistory_eq hmem₁, Option.getD_some]
  refine ⟨(hstock₁.deleteOffer _).updateMarketExhausted, fun w => ?_, offer, hmem, fun hsell => ?_⟩
  · have herase := offered_deleteOffer env.types w hmem₁
    have hunits := howned w
    rw [offered_eq hoffers] at herase
    change st₁.owned env.types w + (st₁.deleteOffer offer.id).offered env.types w =
      st.owned env.types w + st.offered env.types w
    omega
  · refine ⟨player.inbox, ?_, (hgain hsell).owned, (hgain hsell).kept, (hgain hsell).fresh⟩
    rw [hown, inboxOf, hfind, Option.map_some]

/-- Accepting units of a buy offer moves them from the depot of the player to the inbox of the
owner; accepting units of a sell offer moves them from the offer to the inbox of the player. -/
theorem goods_accept (htypes : WareTable env.types) (hstock : st.Stocked env.types)
    {playerId timestamp : UInt32} {counter amount : UInt16}
    (h : st.playerAcceptMarketOffer env playerId timestamp counter amount = some st') :
    st'.Stocked env.types ∧ (∀ w, st'.unitsOf env.types w = st.unitsOf env.types w) ∧
      ∃ o ∈ st.offers.rows, ∃ player, st.players.find playerId = some player ∧
        (o.type = .buy → ∃ st₁ inbox, st.inboxOf o.playerId = some inbox ∧
          st.Lost env.types st₁ o.itemId (st.depotItems player.depotLocker) amount.toNat ∧
          st₁.Gained env.types st' o.itemId inbox amount.toNat) ∧
        (o.type = .sell → st.Gained env.types st' o.itemId player.inbox amount.toNat) := by
  obtain ⟨player, offer, hfind, rfl, hoffer, hpos, hle, hmax, -, st₁, hacc, rfl⟩ := accept_cases h
  have hmem := mem_of_getOfferByCounter hoffer
  have hplayer := Table.mem_of_find hfind
  obtain ⟨hit, hid⟩ := hstock.ware offer hmem
  have hmoved : st₁.offers = st.offers ∧ st₁.Stocked env.types ∧
      (∀ w, st₁.owned env.types w = st.owned env.types w + offer.goods env.types w amount) ∧
      (offer.type = .buy → ∃ st₀ inbox, st.inboxOf offer.playerId = some inbox ∧
        st.Lost env.types st₀ offer.itemId (st.depotItems player.depotLocker) amount.toNat ∧
        st₀.Gained env.types st₁ offer.itemId inbox amount.toNat) ∧
      (offer.type = .sell → st.Gained env.types st₁ offer.itemId player.inbox amount.toNat) := by
    rcases hacc with ⟨htype, hacc⟩ | ⟨htype, hacc⟩
    · obtain ⟨buyer, hbuyer, -, st₀, htake, rfl⟩ := acceptBuyOffer_cases hacc
      have hbooks := sameBooks_takeGoods htake
      obtain ⟨hlost, hstock₀⟩ := lost_takeGoods htypes hstock hit hpos hmax hplayer htake
      have hbuyer₀ : ∃ p ∈ (st₀.increaseBankBalance player.guid
          (offer.price * amount.toUInt32).toUInt64).players.rows, p.account = buyer.account := by
        refine ⟨_, (Table.mem_modify
          (f := fun p : Player => { p with bankBalance := p.bankBalance + _ })
          fun _ => rfl).mpr ⟨buyer, ?_, rfl⟩, ?_⟩
        · rw [hbooks.players]
          exact Table.mem_of_find hbuyer
        · split <;> rfl
      obtain ⟨hgain, hstock₁⟩ := gained_giveGoods htypes
        (hstock₀.increaseBankBalance player.guid _) hit amount hbuyer₀
      rw [hid] at hlost hgain
      refine ⟨(sameBooks_giveGoods _ _ _ _ _).offers.trans hbooks.offers, hstock₁, fun w => ?_,
        fun _ => ⟨st₀, buyer.inbox, ?_, hlost, hgain.owned, hgain.kept, hgain.fresh⟩,
        fun hsell => ?_⟩
      · have hout := hlost.owned w
        have hin := hgain.owned w
        change _ = st₀.owned env.types w + _ at hin
        rw [MarketOffer.goods, if_neg (by simp [htype])]
        omega
      · rw [inboxOf, hbuyer, Option.map_some]
      · rw [htype] at hsell
        cases hsell
    · obtain ⟨-, -, rfl⟩ := acceptSellOffer_cases hacc
      have hplayer₀ : ∃ p ∈ (st.pay env player.guid
          (offer.price * amount.toUInt32).toUInt64).players.rows, p.account = player.account := by
        refine ⟨_, (Table.mem_modify (f := fun p : Player => p.pay env _)
          fun p => p.guid_pay env _).mpr ⟨player, hplayer, rfl⟩, ?_⟩
        unfold Player.pay
        split
        · split <;> rfl
        · rfl
      obtain ⟨hgain, hstock₁⟩ := gained_giveGoods htypes (hstock.pay player.guid _) hit
        amount hplayer₀
      rw [hid] at hgain
      have hgain' : st.Gained env.types (((st.pay env player.guid
          (offer.price * amount.toUInt32).toUInt64).giveGoods env.types
            (env.types.getItemType offer.itemId) amount player).increaseBankBalance offer.playerId
              (offer.price * amount.toUInt32).toUInt64) offer.itemId player.inbox amount.toNat :=
        ⟨hgain.owned, hgain.kept, hgain.fresh⟩
      refine ⟨(sameBooks_giveGoods _ _ _ _ _).offers, hstock₁.increaseBankBalance _ _, fun w => ?_,
        fun hbuy => ?_, fun _ => hgain'⟩
      · rw [hgain'.owned, MarketOffer.goods]
        simp only [htype, true_and]
      · rw [htype] at hbuy
        cases hbuy
  obtain ⟨hoffers, hstock₁, howned, hbuy, hsell⟩ := hmoved
  have hmem₁ : offer ∈ st₁.offers.rows := by rw [hoffers]; exact hmem
  have hclosed : ∀ Q : State → Prop, Q (st₁.deleteOffer offer.id) →
      Q (st₁.acceptOffer offer.id amount) →
      Q (if offer.amount = amount then st₁.deleteOffer offer.id
        else st₁.acceptOffer offer.id amount) := by
    intro Q hdelete haccept
    split
    · exact hdelete
    · exact haccept
  have hgoods : ∀ w, (if offer.amount = amount then st₁.deleteOffer offer.id
      else st₁.acceptOffer offer.id amount).owned env.types w = st₁.owned env.types w := fun w =>
    hclosed (fun s => s.owned env.types w = st₁.owned env.types w) rfl rfl
  have hobjs : (if offer.amount = amount then st₁.deleteOffer offer.id
      else st₁.acceptOffer offer.id amount).objs = st₁.objs :=
    hclosed (fun s => s.objs = st₁.objs) rfl rfl
  refine ⟨(hclosed _ (hstock₁.deleteOffer _) (hstock₁.acceptOffer _ _)).updateMarketExhausted,
    fun w => ?_, offer, hmem, player, hfind, fun htype => ?_, fun htype => ?_⟩
  · have hclose := offered_closeUnits env.types w hmem₁ hle
    have hunits := howned w
    have hsame := hgoods w
    rw [offered_eq hoffers] at hclose
    change (if offer.amount = amount then st₁.deleteOffer offer.id
      else st₁.acceptOffer offer.id amount).owned env.types w +
        (if offer.amount = amount then st₁.deleteOffer offer.id
          else st₁.acceptOffer offer.id amount).offered env.types w =
            st.owned env.types w + st.offered env.types w
    omega
  · obtain ⟨st₀, inbox, hinbox, hlost, hgain⟩ := hbuy htype
    refine ⟨st₀, inbox, hinbox, hlost, fun w => (hgoods w).trans (hgain.owned w), ?_, ?_⟩
    · intro o ho
      exact hobjs ▸ hgain.kept o ho
    · intro o ho
      exact hgain.fresh o (hobjs ▸ ho)
  · have hgain := hsell htype
    refine ⟨fun w => (hgoods w).trans (hgain.owned w), ?_, ?_⟩
    · intro o ho
      exact hobjs ▸ hgain.kept o ho
    · intro o ho
      exact hgain.fresh o (hobjs ▸ ho)

/-! ## Goods of expiry -/

theorem inboxOf_modifyPlayer {f : Player → Player} (hf : ∀ p, (f p).guid = p.guid)
    (hkeep : ∀ p, (f p).inbox = p.inbox) (g : UInt32) :
    (st.modifyPlayer guid f hf).inboxOf g = st.inboxOf g := by
  unfold inboxOf
  by_cases hg : g = guid
  · subst hg
    cases h : st.players.find g with
    | none =>
      have hnone : ((st.modifyPlayer g f hf).players.find g).isSome = false :=
        (Table.find_modify_isSome hf).trans (by rw [h]; rfl)
      rw [Option.isSome_eq_false_iff, Option.isNone_iff_eq_none] at hnone
      rw [hnone]
    | some p =>
      have hsome : (st.modifyPlayer g f hf).players.find g = some (f p) :=
        Table.find_modify_self hf h
      rw [hsome, Option.map_some, Option.map_some, hkeep]
  · have hsame : (st.modifyPlayer guid f hf).players.find g = st.players.find g :=
      Table.find_modify_of_ne hf hg
    rw [hsame]

/-- New items lie in the inbox of the owner of a sell offer and are of its type. -/
def Returned (types : Items) (st st' : State) : Prop :=
  ∀ x ∈ st'.objs.rows, x ∈ st.objs.rows ∨ ∃ o ∈ st.offers.rows, o.type = .sell ∧
    ∃ inbox, st.inboxOf o.playerId = some inbox ∧ x.parent = some inbox ∧
      ∃ count, Item.createItem types o.itemId count = some x.item

/-- What holds along an expiry that started in `st`. -/
structure Expiring (types : Items) (st st' : State) : Prop where
  consistent : Consistent st'
  stocked : st'.Stocked types
  units : ∀ w, st'.unitsOf types w = st.unitsOf types w
  inbox : ∀ guid, st'.inboxOf guid = st.inboxOf guid
  offers : ∀ o ∈ st'.offers.rows, o ∈ st.offers.rows
  returned : Returned types st st'

theorem expiring_processExpiredOffer (htypes : WareTable env.types)
    (h : Expiring env.types st st') {row : MarketOffer}
    (hfit : st'.Fits (fun o row => row.type = .sell →
      row.itemId ≠ ItemId.storeCoin ∧ o.amount = row.amount) row) :
    Expiring env.types st (st'.processExpiredOffer env row) := by
  have hcons : Consistent (st'.processExpiredOffer env row) :=
    h.consistent.evolve evolves_processExpiredOffer
  have hsub : ∀ o ∈ (st'.processExpiredOffer env row).offers.rows, o ∈ st.offers.rows :=
    fun o ho => h.offers o (mem_offers_processExpiredOffer ho)
  unfold processExpiredOffer at hcons hsub ⊢
  cases hmove : st'.moveOfferToHistory row.id with
  | none => exact h
  | some st₁ =>
    obtain ⟨o, ho, rfl⟩ := Option.map_eq_some_iff.mp hmove
    rw [hmove] at hcons hsub
    obtain ⟨hmem, hid⟩ := Table.find_eq_some.mp ho
    obtain ⟨hrow, hsafe⟩ := hfit o hmem hid
    have hitem : row.itemId = o.itemId := by rw [hrow]
    have hplayer : row.playerId = o.playerId := by rw [hrow]
    have htype : row.type = o.type := by rw [hrow]
    have herase := fun w => offered_deleteOffer env.types w hmem
    rw [hid] at herase
    dsimp only at hcons hsub ⊢
    cases hsale : row.type with
    | buy =>
      rw [hsale] at hcons hsub
      refine ⟨hcons, (h.stocked.deleteOffer _).increaseBankBalance _ _, fun w => ?_, fun guid => ?_,
        hsub, h.returned⟩
      · have hnone : o.goods env.types w o.amount = 0 := by
          rw [MarketOffer.goods, if_neg (by simp [← htype, hsale])]
        have hunits := h.units w
        have herase := herase w
        change st'.owned env.types w + (st'.deleteOffer row.id).offered env.types w = _
        unfold unitsOf at hunits ⊢
        omega
      · exact (inboxOf_modifyPlayer (f := fun p => { p with bankBalance := p.bankBalance + _ }) _
          (fun _ => rfl) guid).trans (h.inbox guid)
    | sell =>
      rw [hsale] at hcons hsub
      obtain ⟨hcoin, hamount⟩ := hsafe hsale
      obtain ⟨hit, hself⟩ := h.stocked.ware o hmem
      obtain ⟨owner, howner⟩ := Option.isSome_iff_exists.mp (h.consistent.owner o hmem)
      have hne : (env.types.getItemType row.itemId).id ≠ 0 := by
        rw [hitem]
        obtain ⟨_, -, -, -, hne, -⟩ := hit
        exact hne
      have hfind : (st'.deleteOffer row.id).players.find row.playerId = some owner := by
        rw [hplayer]
        exact howner
      dsimp only at hcons hsub ⊢
      rw [if_neg (by simpa using hne), hfind] at hcons hsub ⊢
      rw [hitem] at hcoin
      obtain ⟨hgain, hstock⟩ := gained_giveItems htypes (h.stocked.deleteOffer row.id) hit
        (by rwa [hself]) row.amount owner.inbox
      rw [hself] at hgain
      rw [hitem] at hcons hsub ⊢
      have hbooks := sameBooks_giveItems env.types (st'.deleteOffer row.id)
        (env.types.getItemType o.itemId) row.amount owner.inbox
      refine ⟨hcons, hstock, fun w => ?_, fun guid => ?_, hsub, fun x hx => ?_⟩
      · have hunits := h.units w
        have herase := herase w
        have howned := hgain.owned w
        have hoffers : _ = (st'.deleteOffer row.id).offered env.types w := offered_eq hbooks.offers
        rw [MarketOffer.goods, hamount] at herase
        simp only [← htype, hsale, true_and] at herase
        change _ = st'.owned env.types w + _ at howned
        dsimp only [unitsOf] at hunits ⊢
        omega
      · rw [inboxOf, hbooks.players]
        exact h.inbox guid
      · rcases hgain.fresh x hx with hx | ⟨hparent, hcreate⟩
        · exact h.returned x hx
        · refine .inr ⟨o, h.offers o hmem, by rw [← htype, hsale], owner.inbox, ?_, hparent, hcreate⟩
          rw [← h.inbox, inboxOf, howner, Option.map_some]

theorem expiring_processExpiredOffers (htypes : WareTable env.types) (hcons : Consistent st)
    (hstock : st.Stocked env.types) (hsafe : st.GoodsSafe .processExpired) :
    Expiring env.types st (st.processExpiredOffers env) := by
  refine processExpiredOffers_induct (I := Expiring env.types st) hcons
    (fun rows hrows row hrow o ho hid htype => hsafe rows hrows row hrow htype o ho hid) ?_ ?_
    fun s row hs hfit => expiring_processExpiredOffer htypes hs hfit
  · exact ⟨hcons, hstock, fun _ => rfl, fun _ => rfl, fun _ h => h, fun _ h => .inl h⟩
  · intro results hr
    exact ⟨hcons.dropResults hr,
      ⟨hstock.stored, hstock.locker, hstock.account, hstock.task, hstock.ware⟩, fun _ => rfl,
      fun _ => rfl, fun _ h => h, fun _ h => .inl h⟩

/-! ## Goods of a run -/

/-- Where the goods of a request go. A new sell offer takes its amount out of the depot or the
account of its owner, a cancelled one gives it back, and an accepted one moves the units. -/
def GoodsMoved (env : Env) (st : State) : Event → Prop
  | .create playerId type spriteId amount price anonymous => ∀ st',
    st.playerCreateMarketOffer env playerId type spriteId amount price anonymous = some st' →
    st'.offers.next = st.offers.next + 1 → MarketAction.ofUInt8 type = some .sell →
    ∃ player it, st.players.find playerId = some player ∧ IsWare env.types it ∧
      st.Lost env.types st' it.id (st.depotItems player.depotLocker) amount.toNat
  | .cancel playerId timestamp counter => ∀ st',
    st.playerCancelMarketOffer env playerId timestamp counter = some st' →
    ∃ o ∈ st.offers.rows, o.type = .sell →
      ∃ inbox, st.inboxOf o.playerId = some inbox ∧
        st.Gained env.types st' o.itemId inbox o.amount.toNat
  | .accept playerId timestamp counter amount => ∀ st',
    st.playerAcceptMarketOffer env playerId timestamp counter amount = some st' →
    ∃ o ∈ st.offers.rows, ∃ player, st.players.find playerId = some player ∧
      (o.type = .buy → ∃ st₁ inbox, st.inboxOf o.playerId = some inbox ∧
        st.Lost env.types st₁ o.itemId (st.depotItems player.depotLocker) amount.toNat ∧
        st₁.Gained env.types st' o.itemId inbox amount.toNat) ∧
      (o.type = .sell → st.Gained env.types st' o.itemId player.inbox amount.toNat)
  | .processExpired => Returned env.types st (st.processExpiredOffers env)
  | _ => True

structure GoodsKept (env : Env) (st : State) (e : Event) : Prop where
  total : ∀ w, (st.step env e).unitsOf env.types w = st.unitsOf env.types w
  moved : st.GoodsMoved env e

theorem goodsKept_step (htypes : WareTable env.types) (hcons : Consistent st)
    (hstock : st.Stocked env.types) {e : Event} (hsafe : st.GoodsSafe e) :
    (st.step env e).Stocked env.types ∧ st.GoodsKept env e := by
  have hrequest : ∀ x : Option State, (∀ st', x = some st' → st'.Stocked env.types ∧
      ∀ w, st'.unitsOf env.types w = st.unitsOf env.types w) →
      (x.getD st).Stocked env.types ∧
        ∀ w, (x.getD st).unitsOf env.types w = st.unitsOf env.types w := by
    intro x hx
    cases x with
    | none => exact ⟨hstock, fun _ => rfl⟩
    | some st' => exact hx st' rfl
  cases e with
  | create =>
    obtain ⟨hstock', htotal⟩ := hrequest _ fun st' h =>
      ⟨(goods_create htypes hstock h).1, (goods_create htypes hstock h).2.1⟩
    exact ⟨hstock', htotal, fun st' h => (goods_create htypes hstock h).2.2⟩
  | cancel =>
    obtain ⟨hstock', htotal⟩ := hrequest _ fun st' h =>
      ⟨(goods_cancel htypes hstock h).1, (goods_cancel htypes hstock h).2.1⟩
    exact ⟨hstock', htotal, fun st' h => (goods_cancel htypes hstock h).2.2⟩
  | accept =>
    obtain ⟨hstock', htotal⟩ := hrequest _ fun st' h =>
      ⟨(goods_accept htypes hstock h).1, (goods_accept htypes hstock h).2.1⟩
    exact ⟨hstock', htotal, fun st' h => (goods_accept htypes hstock h).2.2⟩
  | queryExpired =>
    exact ⟨⟨hstock.stored, hstock.locker, hstock.account, hstock.task, hstock.ware⟩,
      fun _ => rfl, trivial⟩
  | processExpired =>
    have hexp := expiring_processExpiredOffers htypes hcons hstock hsafe
    exact ⟨hexp.stocked, hexp.units, hexp.returned⟩
  | runTask =>
    refine ⟨hstock.runTask, fun w => ?_, trivial⟩
    have hoffers : st.runTask.offers = st.offers := by
      unfold runTask
      split <;> rfl
    change st.runTask.owned env.types w + st.runTask.offered env.types w = _
    rw [owned_runTask hstock, offered_eq hoffers, unitsOf]
  | advance =>
    exact ⟨⟨hstock.stored, hstock.locker, hstock.account, hstock.task, hstock.ware⟩,
      fun _ => rfl, trivial⟩
  | session guid online inMarket premium =>
    exact ⟨hstock.modifyPlayer
      (f := fun p => { p with online := online, inMarket := inMarket, premium := premium }) _
        fun _ => ⟨rfl, rfl⟩, fun _ => rfl, trivial⟩

/-- A server with two wares, a sword and the store coin. -/
def coinEnv : Env where
  types :=
    { items := fun id =>
        if id = 2376 then { id := 2376, wareId := 3264, moveable := true, pickupable := true }
        else if id = ItemId.storeCoin then
          { id := ItemId.storeCoin, wareId := 22118, stackable := true, moveable := true,
            pickupable := true }
        else {}
      reverseItemMap := fun spriteId =>
        if spriteId = 3264 then some 2376
        else if spriteId = 22118 then some ItemId.storeCoin
        else none }
  marketPremium := false
  rawFee := fun _ _ => 20
  removeMoney := fun bank money cost _ => (bank - cost, money)

theorem isWare_coinEnv {it : ItemType} (h : IsWare coinEnv.types it) :
    it = coinEnv.types.getItemType 2376 ∨ it = coinEnv.types.getItemType ItemId.storeCoin := by
  obtain ⟨spriteId, -, -, rfl, hid, -⟩ := h
  generalize (coinEnv.types.getItemIdByClientId spriteId).wareId = ware at hid ⊢
  by_cases h₁ : ware = 3264
  · subst h₁
    exact .inl rfl
  · by_cases h₂ : ware = 22118
    · subst h₂
      exact .inr rfl
    · refine absurd ?_ hid
      simp only [Items.getItemIdByClientId, coinEnv, h₁, h₂, if_false]
      rfl

theorem wareTable_coinEnv : WareTable coinEnv.types where
  own_id := by
    intro id hid
    by_cases h₁ : id = 2376
    · subst h₁
      rfl
    · by_cases h₂ : id = ItemId.storeCoin
      · subst h₂
        rfl
      · simp [Items.getItemType, coinEnv, h₁, h₂] at hid
  not_deprecated := by
    intro it hit
    rcases isWare_coinEnv hit with rfl | rfl <;> decide
  plain := by
    intro it hit
    rcases isWare_coinEnv hit with rfl | rfl <;> decide
  removable := by
    intro it hit
    rcases isWare_coinEnv hit with rfl | rfl <;> decide
  stackable_plain := by
    intro it hit
    rcases isWare_coinEnv hit with rfl | rfl <;> decide
  stackable_eq := by
    intro it hit id hware
    by_cases h₁ : id = 2376
    · subst h₁
      rcases isWare_coinEnv hit with rfl | rfl
      · rfl
      · exact absurd hware (by decide)
    · by_cases h₂ : id = ItemId.storeCoin
      · subst h₂
        rcases isWare_coinEnv hit with rfl | rfl
        · exact absurd hware (by decide)
        · rfl
      · have h0 : (coinEnv.types.getItemType id).wareId = 0 := by
          simp [Items.getItemType, coinEnv, h₁, h₂]
        rw [h0] at hware
        exact absurd hware.symm hit.wareId_ne_zero

/-- A player with ten store coins and two swords, one in a depot chest and one in the inbox. -/
def seller : State where
  __ := onePlayer
  accounts := ⟨[⟨1, 10⟩], by decide⟩
  objs := ⟨⟨[⟨1, some 0, { cls := .inbox, id := 14404 }, 30⟩,
      ⟨2, some 0, { cls := .depotChest, id := 25453 }, 32⟩,
      ⟨3, some 1, { cls := .item, id := 2376 }, 0⟩,
      ⟨4, some 2, { cls := .item, id := 2376 }, 0⟩], by decide⟩, 5, by decide⟩

theorem consistent_seller : Consistent seller :=
  ⟨by simp [seller, onePlayer], by simp [seller, onePlayer]⟩

theorem stocked_seller : seller.Stocked coinEnv.types where
  stored := by
    intro o ho
    simp only [seller, List.mem_cons, List.not_mem_nil, or_false] at ho
    rcases ho with rfl | rfl | rfl | rfl <;> exact ⟨by decide, by decide, by decide⟩
  locker := by decide
  account := by decide
  task := by decide
  ware := by simp [seller, onePlayer]

/-- Two swords are offered, and the offer is cancelled after three seconds. -/
def cancelledSwords : List Event :=
  [.create 1 1 3264 2 100 false, .advance 3000, .cancel 1 2592003 1]

end State

end OTServBR.Market
