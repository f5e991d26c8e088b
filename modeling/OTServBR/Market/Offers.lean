import Mathlib
import OTServBR.Market.Goods

/-! # Market offers

The three requests of a player and the callback of the query for expired
offers. A request that is refused leaves the state as it is and is `none`; the
other steps are the tasks of the database, the clock, and players that come,
go and open the market.
-/

namespace OTServBR.Market

namespace State

variable (env : Env) (st : State)

/-- The checks of `playerCreateMarketOffer` on the request and on the type of the ware. -/
def offeredType (spriteId amount : UInt16) : Option ItemType := do
  let itt := env.types.getItemIdByClientId spriteId
  guard (itt.id ≠ 0 ∧ itt.wareId ≠ 0)
  let it := env.types.getItemIdByClientId itt.wareId
  guard (it.id ≠ 0 ∧ it.wareId ≠ 0)
  guard (it.stackable = true ∨ amount ≤ 2000)
  return it

/-- The goods of a sell offer and its fee. -/
def placeSellOffer (player : Player) (it : ItemType) (amount : UInt16) (fee : UInt64) :
    Option State := do
  guard (fee ≤ player.bankBalance + player.getMoney)
  let st ← st.takeGoods env.types it amount player
  return st.removeMoney env player.guid fee true

/-- The price of a buy offer and its fee; `price * amount` is a 32-bit product. -/
def placeBuyOffer (player : Player) (amount : UInt16) (price : UInt32) (fee : UInt64) :
    Option State := do
  let totalPrice : UInt64 := (price * amount.toUInt32).toUInt64 + fee
  guard (totalPrice ≤ player.getMoney + player.bankBalance)
  return st.removeMoney env player.guid totalPrice true

def playerCreateMarketOffer (playerId : UInt32) (type : UInt8) (spriteId amount : UInt16)
    (price : UInt32) (anonymous : Bool) : Option State := do
  guard (amount ≠ 0 ∧ amount ≤ 64000)
  guard (price ≠ 0 ∧ price ≤ 999999999)
  let action ← MarketAction.ofUInt8 type
  let player ← st.getPlayerByID playerId
  guard (player.inMarket = true)
  guard (player.isMarketExhausted st.now = false)
  if env.marketPremium && !player.premium then return st.sendMarketLeave player.guid
  let it ← offeredType env spriteId amount
  guard (env.maxMarketOffersAtATimePerPlayer = 0 ∨
    st.getPlayerOfferCount player.guid < env.maxMarketOffersAtATimePerPlayer)
  let fee := env.offerFee price amount
  let st ← match action with
    | .sell => st.placeSellOffer env player it amount fee
    | .buy => st.placeBuyOffer env player amount price fee
  return (st.createOffer player.guid action it.id amount price anonymous).updateMarketExhausted
    player.guid

/-- What the owner of a cancelled offer gets back. -/
def refundOffer (player : Player) (offer : MarketOffer) : Option State :=
  match offer.type with
  | .buy =>
    some (st.increaseBankBalance player.guid (offer.price.toUInt64 * offer.amount.toUInt64))
  | .sell =>
    let it := env.types.getItemType offer.itemId
    if it.id == 0 then none else some (st.giveGoods env.types it offer.amount player)

def playerCancelMarketOffer (playerId timestamp : UInt32) (counter : UInt16) : Option State := do
  let player ← st.getPlayerByID playerId
  guard (player.inMarket = true)
  guard (player.isMarketExhausted st.now = false)
  let offer ← st.getOfferByCounter env timestamp counter
  guard (offer.playerId = player.guid)
  let st ← st.refundOffer env player offer
  return ((st.moveOfferToHistory offer.id).getD st).updateMarketExhausted player.guid

/-- A player sells to a buy offer: goods go to the inbox of the buyer, who may be offline, and
the price to the bank of the player. -/
def acceptBuyOffer (player : Player) (offer : MarketOffer) (it : ItemType) (amount : UInt16)
    (totalPrice : UInt64) : Option State := do
  let buyerPlayer ← st.players.find offer.playerId
  guard (buyerPlayer.guid ≠ player.guid)
  let st ← st.takeGoods env.types it amount player
  return (st.increaseBankBalance player.guid totalPrice).giveGoods env.types it amount buyerPlayer

/-- A player buys from a sell offer: the price goes from the player to the bank of the seller,
who may be offline, and the goods to the inbox of the player. -/
def acceptSellOffer (player : Player) (offer : MarketOffer) (it : ItemType) (amount : UInt16)
    (totalPrice : UInt64) : Option State := do
  guard (offer.playerId ≠ player.guid)
  guard (totalPrice ≤ player.bankBalance + player.getMoney)
  let st := (st.pay env player.guid totalPrice).giveGoods env.types it amount player
  return st.increaseBankBalance offer.playerId totalPrice

def playerAcceptMarketOffer (playerId timestamp : UInt32) (counter amount : UInt16) :
    Option State := do
  guard (amount ≠ 0 ∧ amount ≤ 64000)
  let player ← st.getPlayerByID playerId
  guard (player.inMarket = true)
  guard (player.isMarketExhausted st.now = false)
  let offer ← st.getOfferByCounter env timestamp counter
  guard (amount ≤ offer.amount)
  let it := env.types.getItemType offer.itemId
  guard (it.id ≠ 0)
  -- a 32-bit product
  let totalPrice := (offer.price * amount.toUInt32).toUInt64
  let st ← match offer.type with
    | .buy => st.acceptBuyOffer env player offer it amount totalPrice
    | .sell => st.acceptSellOffer env player offer it amount totalPrice
  let st := if offer.amount = amount then st.deleteOffer offer.id else st.acceptOffer offer.id amount
  return st.updateMarketExhausted player.guid

/-- One row of the result: an offer that is still open is closed, and its owner gets what the
row says. -/
def processExpiredOffer (row : MarketOffer) : State :=
  match st.moveOfferToHistory row.id with
  | none => st
  | some st =>
    match row.type with
    | .sell =>
      let itemType := env.types.getItemType row.itemId
      if itemType.id == 0 then st
      else
        match st.players.find row.playerId with
        | none => st
        | some player => st.giveItems env.types itemType row.amount player.inbox
    | .buy => st.increaseBankBalance row.playerId (row.price.toUInt64 * row.amount.toUInt64)

/-- The callback of the oldest query. -/
def processExpiredOffers : State :=
  match st.expiredOffers with
  | [] => st
  | rows :: results =>
    rows.foldl (processExpiredOffer env) { st with expiredOffers := results }

end State

inductive Event
  | create (playerId : UInt32) (type : UInt8) (spriteId amount : UInt16) (price : UInt32)
      (anonymous : Bool)
  | cancel (playerId timestamp : UInt32) (counter : UInt16)
  | accept (playerId timestamp : UInt32) (counter amount : UInt16)
  | queryExpired (lastExpireDate : ℤ)
  | processExpired
  | runTask
  | advance (ms : ℕ)
  | session (guid : UInt32) (online inMarket premium : Bool)

namespace State

variable (env : Env)

def step (st : State) : Event → State
  | .create playerId type spriteId amount price anonymous =>
    (st.playerCreateMarketOffer env playerId type spriteId amount price anonymous).getD st
  | .cancel playerId timestamp counter =>
    (st.playerCancelMarketOffer env playerId timestamp counter).getD st
  | .accept playerId timestamp counter amount =>
    (st.playerAcceptMarketOffer env playerId timestamp counter amount).getD st
  | .queryExpired lastExpireDate => st.queryExpiredOffers lastExpireDate
  | .processExpired => st.processExpiredOffers env
  | .runTask => st.runTask
  | .advance ms => { st with now := st.now + ms }
  | .session guid online inMarket premium =>
    st.modifyPlayer guid
      (fun p => { p with online := online, inMarket := inMarket, premium := premium }) fun _ => rfl

def run (st : State) (events : List Event) : State := events.foldl (step env) st

/-- `Q` holds of every step of a run, in the state in which it is taken. -/
def Along (Q : State → Event → Prop) (st : State) : List Event → Prop
  | [] => True
  | e :: events => Q st e ∧ Along Q (st.step env e) events

/-! ## What the requests can do -/

section Cases

theorem of_guard {p : Prop} [Decidable p] {u : Unit} (h : (guard p : Option Unit) = some u) : p := by
  by_contra hp
  simp [guard, hp] at h

variable {env : Env} {st st' : State} {player : Player} {playerId timestamp : UInt32}
  {counter amount : UInt16}

theorem find_of_getPlayerByID (h : st.getPlayerByID playerId = some player) :
    st.players.find playerId = some player ∧ player.guid = playerId := by
  obtain ⟨hfind, -⟩ := Option.filter_eq_some_iff.mp h
  exact ⟨hfind, Table.key_of_find hfind⟩

theorem mem_of_getOfferByCounter {offer : MarketOffer}
    (h : st.getOfferByCounter env timestamp counter = some offer) : offer ∈ st.offers.rows :=
  List.mem_of_find?_eq_some h

theorem moveOfferToHistory_eq {offer : MarketOffer} (h : offer ∈ st.offers.rows) :
    st.moveOfferToHistory offer.id = some (st.deleteOffer offer.id) := by
  rw [moveOfferToHistory, Table.find_self h, Option.map_some]

theorem placeBuyOffer_cases {price : UInt32} {fee : UInt64}
    (h : st.placeBuyOffer env player amount price fee = some st') :
    (price * amount.toUInt32).toUInt64 + fee ≤ player.getMoney + player.bankBalance ∧
      st' = st.removeMoney env player.guid ((price * amount.toUInt32).toUInt64 + fee) true := by
  simp only [placeBuyOffer, Option.bind_eq_bind, Option.bind_eq_some_iff] at h
  obtain ⟨_, hle, h⟩ := h
  exact ⟨of_guard hle, (Option.some.inj h).symm⟩

theorem placeSellOffer_cases {it : ItemType} {fee : UInt64}
    (h : st.placeSellOffer env player it amount fee = some st') :
    fee ≤ player.bankBalance + player.getMoney ∧
      ∃ st₁, st.takeGoods env.types it amount player = some st₁ ∧
        st' = st₁.removeMoney env player.guid fee true := by
  simp only [placeSellOffer, Option.bind_eq_bind, Option.bind_eq_some_iff] at h
  obtain ⟨_, hle, st₁, htake, h⟩ := h
  exact ⟨of_guard hle, st₁, htake, (Option.some.inj h).symm⟩

theorem isWare_of_offeredType {spriteId : UInt16} {it : ItemType}
    (h : offeredType env spriteId amount = some it) : IsWare env.types it := by
  simp only [offeredType, Option.bind_eq_bind, Option.bind_eq_some_iff] at h
  obtain ⟨_, hitt, _, hit, _, -, h⟩ := h
  obtain rfl := Option.some.inj h
  obtain ⟨hitt₁, hitt₂⟩ := of_guard hitt
  exact ⟨spriteId, hitt₁, hitt₂, rfl, of_guard hit⟩

/-- A request to create an offer closes the market for a player without premium, or places the
stake of the offer and adds it to the table. -/
theorem create_cases {type : UInt8} {spriteId : UInt16} {price : UInt32} {anonymous : Bool}
    (h : st.playerCreateMarketOffer env playerId type spriteId amount price anonymous = some st') :
    ∃ player, st.players.find playerId = some player ∧ player.guid = playerId ∧
      (st' = st.sendMarketLeave playerId ∨
        ∃ action it st₁, MarketAction.ofUInt8 type = some action ∧ IsWare env.types it ∧
          amount ≠ 0 ∧ amount ≤ 64000 ∧
          (action = .sell ∧
              st.placeSellOffer env player it amount (env.offerFee price amount) = some st₁ ∨
            action = .buy ∧
              st.placeBuyOffer env player amount price (env.offerFee price amount) = some st₁) ∧
          st' = (st₁.createOffer playerId action it.id amount price
            anonymous).updateMarketExhausted playerId) := by
  simp only [playerCreateMarketOffer, Option.bind_eq_bind, Option.bind_eq_some_iff] at h
  obtain ⟨_, hamount, _, -, action, haction, player, hplayer, _, -, _, -, h⟩ := h
  obtain ⟨hfind, rfl⟩ := find_of_getPlayerByID hplayer
  obtain ⟨hpos, hmax⟩ := of_guard hamount
  refine ⟨player, hfind, rfl, ?_⟩
  split at h
  · exact .inl (Option.some.inj h).symm
  · right
    obtain ⟨it, hit, h⟩ := Option.bind_eq_some_iff.mp h
    obtain ⟨_, -, h⟩ := Option.bind_eq_some_iff.mp h
    have hware := isWare_of_offeredType hit
    cases action with
    | sell =>
      obtain ⟨st₁, hplace, h⟩ := Option.bind_eq_some_iff.mp h
      exact ⟨.sell, it, st₁, haction, hware, hpos, hmax, .inl ⟨rfl, hplace⟩,
        (Option.some.inj h).symm⟩
    | buy =>
      obtain ⟨st₁, hplace, h⟩ := Option.bind_eq_some_iff.mp h
      exact ⟨.buy, it, st₁, haction, hware, hpos, hmax, .inr ⟨rfl, hplace⟩,
        (Option.some.inj h).symm⟩

theorem cancel_cases
    (h : st.playerCancelMarketOffer env playerId timestamp counter = some st') :
    ∃ player offer, st.players.find playerId = some player ∧ player.guid = playerId ∧
      offer ∈ st.offers.rows ∧ offer.playerId = playerId ∧
      ∃ st₁, st.refundOffer env player offer = some st₁ ∧
        st' = ((st₁.moveOfferToHistory offer.id).getD st₁).updateMarketExhausted playerId := by
  simp only [playerCancelMarketOffer, Option.bind_eq_bind, Option.bind_eq_some_iff] at h
  obtain ⟨player, hplayer, _, -, _, -, offer, hoffer, _, hown, st₁, hrefund, h⟩ := h
  obtain ⟨hfind, rfl⟩ := find_of_getPlayerByID hplayer
  exact ⟨player, offer, hfind, rfl, mem_of_getOfferByCounter hoffer, of_guard hown, st₁, hrefund,
    (Option.some.inj h).symm⟩

theorem acceptBuyOffer_cases {offer : MarketOffer} {it : ItemType} {totalPrice : UInt64}
    (h : st.acceptBuyOffer env player offer it amount totalPrice = some st') :
    ∃ buyerPlayer, st.players.find offer.playerId = some buyerPlayer ∧
      buyerPlayer.guid ≠ player.guid ∧
      ∃ st₁, st.takeGoods env.types it amount player = some st₁ ∧
        st' = (st₁.increaseBankBalance player.guid totalPrice).giveGoods env.types it amount
          buyerPlayer := by
  simp only [acceptBuyOffer, Option.bind_eq_bind, Option.bind_eq_some_iff] at h
  obtain ⟨buyerPlayer, hbuyer, _, hne, st₁, htake, h⟩ := h
  exact ⟨buyerPlayer, hbuyer, of_guard hne, st₁, htake, (Option.some.inj h).symm⟩

theorem acceptSellOffer_cases {offer : MarketOffer} {it : ItemType} {totalPrice : UInt64}
    (h : st.acceptSellOffer env player offer it amount totalPrice = some st') :
    offer.playerId ≠ player.guid ∧ totalPrice ≤ player.bankBalance + player.getMoney ∧
      st' = ((st.pay env player.guid totalPrice).giveGoods env.types it amount
        player).increaseBankBalance offer.playerId totalPrice := by
  simp only [acceptSellOffer, Option.bind_eq_bind, Option.bind_eq_some_iff] at h
  obtain ⟨_, hne, _, hle, h⟩ := h
  exact ⟨of_guard hne, of_guard hle, (Option.some.inj h).symm⟩

theorem accept_cases
    (h : st.playerAcceptMarketOffer env playerId timestamp counter amount = some st') :
    ∃ player offer, st.players.find playerId = some player ∧ player.guid = playerId ∧
      st.getOfferByCounter env timestamp counter = some offer ∧ amount ≠ 0 ∧
      amount ≤ offer.amount ∧ amount ≤ 64000 ∧ (env.types.getItemType offer.itemId).id ≠ 0 ∧
      ∃ st₁,
        (offer.type = .buy ∧ st.acceptBuyOffer env player offer
            (env.types.getItemType offer.itemId) amount
            (offer.price * amount.toUInt32).toUInt64 = some st₁ ∨
          offer.type = .sell ∧ st.acceptSellOffer env player offer
            (env.types.getItemType offer.itemId) amount
            (offer.price * amount.toUInt32).toUInt64 = some st₁) ∧
        st' = (if offer.amount = amount then st₁.deleteOffer offer.id
          else st₁.acceptOffer offer.id amount).updateMarketExhausted playerId := by
  simp only [playerAcceptMarketOffer, Option.bind_eq_bind, Option.bind_eq_some_iff] at h
  obtain ⟨_, hamount, player, hplayer, _, -, _, -, offer, hoffer, _, hle, _, hid, h⟩ := h
  obtain ⟨hfind, rfl⟩ := find_of_getPlayerByID hplayer
  obtain ⟨hpos, hmax⟩ := of_guard hamount
  refine ⟨player, offer, hfind, rfl, hoffer, hpos, of_guard hle, hmax, of_guard hid, ?_⟩
  cases htype : offer.type with
  | buy =>
    rw [htype] at h
    obtain ⟨st₁, hacc, h⟩ := Option.bind_eq_some_iff.mp h
    exact ⟨st₁, .inl ⟨rfl, hacc⟩, (Option.some.inj h).symm⟩
  | sell =>
    rw [htype] at h
    obtain ⟨st₁, hacc, h⟩ := Option.bind_eq_some_iff.mp h
    exact ⟨st₁, .inr ⟨rfl, hacc⟩, (Option.some.inj h).symm⟩

end Cases

end State

end OTServBR.Market
