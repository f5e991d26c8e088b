import OTServBR.Item.Basic
import OTServBR.Lib.Table

/-! # The market

Players deal in wares through offers that the database keeps. The state has
what the market touches: bank balances and carried coins, the store coins of
the accounts, the open offers, and the items in depot lockers and inboxes.
Changes of store coins are tasks that the database runs later, in order, and
so is the query for expired offers, whose result waits for its callback.
-/

namespace OTServBR.Market

inductive MarketAction | buy | sell
  deriving DecidableEq, Repr

def MarketAction.ofUInt8 (n : UInt8) : Option MarketAction :=
  if n == 0 then some buy else if n == 1 then some sell else none

/-- A player, online or stored. The same number stands for its creature id and its guid; the
lockers of all depots hold the same boxes and are one here. -/
structure Player where
  guid : UInt32
  account : UInt32
  online : Bool := true
  bankBalance : UInt64 := 0
  /-- Worth of the coins carried. -/
  money : ℕ := 0
  inMarket : Bool := true
  premium : Bool := false
  lastMarketInteraction : ℤ := 0
  depotLocker : ℕ
  inbox : ℕ
  deriving DecidableEq, Repr

structure Account where
  id : UInt32
  coins : ℤ
  deriving DecidableEq, Repr

/-- A row of `market_offers`. -/
structure MarketOffer where
  id : ℕ
  playerId : UInt32
  type : MarketAction
  itemId : UInt16
  amount : UInt16
  price : UInt32
  created : ℤ
  anonymous : Bool := false
  deriving DecidableEq, Repr

/-- An item object with its address and the container it lies in. -/
structure Obj where
  ref : ℕ
  parent : Option ℕ
  item : Item
  /-- Member of `Container`. -/
  maxSize : UInt32 := 0
  deriving DecidableEq, Repr

/-- The task `UPDATE accounts SET coins = coins + amount`. -/
structure CoinTask where
  account : UInt32
  amount : ℤ
  deriving DecidableEq, Repr

structure State where
  players : Table Player.guid
  accounts : Table Account.id
  offers : AutoTable MarketOffer.id
  objs : AutoTable Obj.ref
  databaseTasks : List CoinTask := []
  /-- Results of queries for expired offers, oldest first. -/
  expiredOffers : List (List MarketOffer) := []
  /-- `OTSYS_TIME`, in milliseconds. -/
  now : ℤ := 0

/-- The configuration, the item types, and two computations made elsewhere. -/
structure Env where
  types : Items
  marketPremium : Bool := true
  maxMarketOffersAtATimePerPlayer : ℕ := 100
  marketOfferDuration : Int32 := 2592000
  /-- The floating point product `(price / 100.) * amount`, cut to an integer. -/
  rawFee : UInt32 → UInt16 → UInt64
  /-- `Game::removeMoney`: from bank balance, carried coins, cost and `useBalance` to the new
  balance and coins. -/
  removeMoney : UInt64 → ℕ → UInt64 → Bool → UInt64 × ℕ

namespace Player

variable (p : Player)

def getMoney : UInt64 := UInt64.ofNat p.money

def isMarketExhausted (now : ℤ) : Bool := now - p.lastMarketInteraction < 3000

def removeMoney (env : Env) (cost : UInt64) (useBalance : Bool) : Player :=
  let r := env.removeMoney p.bankBalance p.money cost useBalance
  { p with bankBalance := r.1, money := r.2 }

/-- Paying a seller: from the bank as far as it goes, the rest in coins. -/
def pay (env : Env) (totalPrice : UInt64) : Player :=
  if totalPrice ≤ p.bankBalance then { p with bankBalance := p.bankBalance - totalPrice }
  else { p with bankBalance := 0 }.removeMoney env (totalPrice - p.bankBalance) false

@[simp] theorem guid_pay (env : Env) (totalPrice : UInt64) :
    (p.pay env totalPrice).guid = p.guid := by
  unfold pay
  split <;> rfl

end Player

namespace State

variable (st : State)

def getPlayerByID (playerId : UInt32) : Option Player :=
  (st.players.find playerId).filter (·.online)

def modifyPlayer (guid : UInt32) (f : Player → Player) (hf : ∀ p, (f p).guid = p.guid) : State :=
  { st with players := st.players.modify guid f hf }

def removeMoney (env : Env) (guid : UInt32) (cost : UInt64) (useBalance : Bool) : State :=
  st.modifyPlayer guid (fun p => p.removeMoney env cost useBalance) fun _ => rfl

def pay (env : Env) (guid : UInt32) (totalPrice : UInt64) : State :=
  st.modifyPlayer guid (fun p => p.pay env totalPrice) fun p => p.guid_pay env totalPrice

/-- `setBankBalance(getBankBalance() + n)` of an online player and `increaseBankBalance` of a
stored one. -/
def increaseBankBalance (guid : UInt32) (n : UInt64) : State :=
  st.modifyPlayer guid (fun p => { p with bankBalance := p.bankBalance + n }) fun _ => rfl

def updateMarketExhausted (guid : UInt32) : State :=
  st.modifyPlayer guid (fun p => { p with lastMarketInteraction := st.now }) fun _ => rfl

def sendMarketLeave (guid : UInt32) : State :=
  st.modifyPlayer guid (fun p => { p with inMarket := false }) fun _ => rfl

/-! ## Store coins -/

/-- A column read as an unsigned number; an account that does not exist has none. -/
def getCoinBalance (account : UInt32) : UInt32 :=
  match st.accounts.find account with
  | some a => Int.toNat (a.coins % 2 ^ 32) |>.toUInt32
  | none => 0

def addCoins (account : UInt32) (amount : ℤ) : State :=
  { st with databaseTasks := st.databaseTasks ++ [⟨account, amount⟩] }

def removeCoins (account : UInt32) (amount : ℤ) : State := st.addCoins account (-amount)

/-- The database runs its oldest task. -/
def runTask : State :=
  match st.databaseTasks with
  | [] => st
  | task :: tasks =>
    { st with
      accounts := st.accounts.modify task.account
        (fun a => { a with coins := a.coins + task.amount }) fun _ => rfl
      databaseTasks := tasks }

/-! ## The table of offers -/

def getPlayerOfferCount (guid : UInt32) : ℕ :=
  (st.offers.rows.filter fun o => o.playerId = guid).length

def createOffer (playerId : UInt32) (action : MarketAction) (itemId amount : UInt16)
    (price : UInt32) (anonymous : Bool) : State :=
  { st with
    offers := st.offers.insert
      (fun id => ⟨id, playerId, action, itemId, amount, price, st.now / 1000, anonymous⟩)
      fun _ => rfl }

/-- The offer with a creation time and the low 16 bits of its id. -/
def getOfferByCounter (env : Env) (timestamp : UInt32) (counter : UInt16) : Option MarketOffer :=
  let created : Int32 := (timestamp - env.marketOfferDuration.toUInt32).toInt32
  st.offers.rows.find? fun o => o.created = created.toInt && o.id % 65536 = counter.toNat

def acceptOffer (offerId : ℕ) (amount : UInt16) : State :=
  { st with
    offers := st.offers.modify offerId (fun o => { o with amount := o.amount - amount })
      fun _ => rfl }

def deleteOffer (offerId : ℕ) : State := { st with offers := st.offers.erase offerId }

/-- The offer leaves its table; the history itself is not part of the state. -/
def moveOfferToHistory (offerId : ℕ) : Option State :=
  (st.offers.find offerId).map fun _ => st.deleteOffer offerId

/-- The query of `checkExpiredOffers` runs. -/
def queryExpiredOffers (lastExpireDate : ℤ) : State :=
  { st with
    expiredOffers := st.expiredOffers ++
      [st.offers.rows.filter fun o => o.created ≤ lastExpireDate] }

end State

/-- The fee of an offer, between 20 and 1000. -/
def Env.offerFee (env : Env) (price : UInt32) (amount : UInt16) : UInt64 :=
  let fee := env.rawFee price amount
  if fee < 20 then 20 else if fee > 1000 then 1000 else fee

end OTServBR.Market
