import Mathlib.Data.Nat.Notation
import Mathlib.Logic.Function.Basic

/-! # Trading

Two players offer an item each and accept what the other one offers. The server
keeps what is offered by whom in a map, so that no item is offered twice. What
the requests find in the world, apart from the containers around the items, is
part of the request.
-/

namespace OTServBR.Trade

variable {π ι : Type*} [DecidableEq π] [DecidableEq ι]

inductive TradeState
  | none | initiated | accept | acknowledge | transfer
  deriving DecidableEq, Repr

structure Player (π ι : Type*) where
  tradeState : TradeState := .none
  tradePartner : Option π := none
  tradeItem : Option ι := none
  /-- What the player and his partner offered when the player accepted. -/
  accepted : Option ι × Option ι := (none, none)
  deriving DecidableEq

/-- A transfer as it starts: the two players, what they offer, and what they accepted. -/
structure Transfer (π ι : Type*) where
  player : π
  tradePartner : π
  tradeItem1 : Option ι
  tradeItem2 : Option ι
  accepted1 : Option ι × Option ι
  accepted2 : Option ι × Option ι
  deriving DecidableEq

structure Game (π ι : Type*) where
  players : π → Player π ι := fun _ => {}
  tradeItems : List (ι × π) := []
  /-- The items of the world, the containers among them, and for every item the containers that
  it lies in, innermost first. -/
  items : List ι := []
  isContainer : ι → Bool := fun _ => false
  parents : ι → List ι := fun _ => []
  /-- The transfers so far. -/
  transfers : List (Transfer π ι) := []

/-- A request to trade, with what it finds: whether the partner exists and is near enough, the
item, and whether the item can be offered from where the player stands. -/
structure Request (π ι : Type*) where
  player : π
  tradePartner : π
  online : Bool := true
  areInRange : Bool := true
  canThrowObjectTo : Bool := true
  thing : Option ι
  isOfferable : Bool := true
  sameFloor : Bool := true
  isReachable : Bool := true
  onTradeRequest : Bool := true

/-- What an acceptance finds: whether the partner can be reached, whether a script allows the
trade, whether the items can be added and removed, and where the moves bring them. -/
structure Acceptance (ι : Type*) where
  canThrowObjectTo : Bool := true
  onTradeAccept : Bool := true
  ret1 : Bool := true
  ret2 : Bool := true
  destination1 : Option (List ι) := some []
  destination2 : Option (List ι) := some []

namespace Game

variable (g : Game π ι)

/-- `isHoldingItem` of a container. -/
def isHoldingItem (container item : ι) : Bool :=
  g.isContainer container && container ∈ g.parents item

def getItemHoldingCount (container : ι) : ℕ := (g.items.filter (g.isHoldingItem container)).length

def setPlayer (p : π) (player : Player π ι) : Game π ι :=
  { g with players := Function.update g.players p player }

/-- Erase an offer from the map. -/
def eraseOffer : Option ι → Game π ι
  | some item => { g with tradeItems := g.tradeItems.filter (·.1 ≠ item) }
  | none => g

/-- Whether an item is offered, holds an offered one or lies in one. -/
def isTraded (tradeItem : ι) : Bool :=
  if g.isContainer tradeItem then
    g.tradeItems.any fun (item, _) =>
      tradeItem == item || g.isHoldingItem tradeItem item || g.isHoldingItem item tradeItem
  else
    g.tradeItems.any fun (item, _) => tradeItem == item || g.isHoldingItem item tradeItem

def internalStartTrade (player tradePartner : π) (tradeItem : ι) : Game π ι :=
  let p := g.players player
  let q := g.players tradePartner
  if p.tradeState ≠ .none ∧
      ¬ (p.tradeState = .acknowledge ∧ p.tradePartner = some tradePartner) then g
  else if q.tradeState ≠ .none ∧ q.tradePartner ≠ some player then g
  else
    let g := g.setPlayer player
      { p with
        tradePartner := some tradePartner
        tradeItem := some tradeItem
        tradeState := .initiated }
    let g :=
      { g with tradeItems := g.tradeItems.filter (·.1 ≠ tradeItem) ++ [(tradeItem, player)] }
    if q.tradeState = .none then
      g.setPlayer tradePartner { q with tradeState := .acknowledge, tradePartner := some player }
    else g

/-- The item that a request offers, if it passes the checks. -/
def offeredItem (r : Request π ι) : Option ι :=
  if r.online = false ∨ r.tradePartner = r.player then none
  else if r.areInRange = false ∨ r.canThrowObjectTo = false then none
  else
    match r.thing with
    | none => none
    | some tradeItem =>
      if r.isOfferable = false ∨ r.sameFloor = false ∨ r.isReachable = false then none
      else if g.isTraded tradeItem then none
      else if g.isContainer tradeItem ∧ g.getItemHoldingCount tradeItem + 1 > 100 then none
      else if r.onTradeRequest = false then none
      else some tradeItem

def playerRequestTrade (r : Request π ι) : Game π ι :=
  match g.offeredItem r with
  | some tradeItem => g.internalStartTrade r.player r.tradePartner tradeItem
  | none => g

/-- A player leaves his trade. -/
def leaveTrade (player : π) : Game π ι :=
  (g.eraseOffer (g.players player).tradeItem).setPlayer player
    { g.players player with tradeState := .none, tradePartner := none, tradeItem := none }

def internalCloseTrade (player : π) : Game π ι :=
  match (g.players player).tradePartner with
  | none =>
    if (g.players player).tradeState = .transfer then g else g.leaveTrade player
  | some tradePartner =>
    if (g.players tradePartner).tradeState = .transfer ∨
        (g.players player).tradeState = .transfer then g
    else (g.leaveTrade player).leaveTrade tradePartner

/-- An item comes to another place with all that it holds. -/
def moveItem (item : ι) : Option (List ι) → Game π ι
  | some destination =>
    { g with
      parents := fun i =>
        if i = item then destination
        else if g.isHoldingItem item i then
          (g.parents i).takeWhile (· ≠ item) ++ item :: destination
        else g.parents i }
  | none => g

/-- The moves of a transfer; the second one is made if the first one is. -/
def moveItems (a : Acceptance ι) : Option ι → Option ι → Game π ι
  | some tradeItem1, some tradeItem2 =>
    if a.ret1 ∧ a.ret2 ∧ a.destination1.isSome then
      (g.moveItem tradeItem1 a.destination1).moveItem tradeItem2 a.destination2
    else g
  | _, _ => g

def endTrade (player : π) : Game π ι :=
  g.setPlayer player
    { g.players player with tradeState := .none, tradePartner := none, tradeItem := none }

/-- What follows when both have accepted. -/
def transfer (player tradePartner : π) (a : Acceptance ι) : Game π ι :=
  let p := g.players player
  let q := g.players tradePartner
  if a.onTradeAccept = false then g.internalCloseTrade player
  else
    let started : Transfer π ι :=
      ⟨player, tradePartner, p.tradeItem, q.tradeItem, p.accepted, q.accepted⟩
    let g := { g with transfers := g.transfers ++ [started] }
    let g := (g.eraseOffer p.tradeItem).eraseOffer q.tradeItem
    ((g.moveItems a p.tradeItem q.tradeItem).endTrade player).endTrade tradePartner

def playerAcceptTrade (player : π) (a : Acceptance ι) : Game π ι :=
  let p := g.players player
  if ¬ (p.tradeState = .acknowledge ∨ p.tradeState = .initiated) then g
  else
    match p.tradePartner with
    | none => g
    | some tradePartner =>
      if a.canThrowObjectTo = false then g
      else
        let q := g.players tradePartner
        let g := g.setPlayer player
          { p with tradeState := .accept, accepted := (p.tradeItem, q.tradeItem) }
        if q.tradeState = .accept then g.transfer player tradePartner a else g

def playerCloseTrade (player : π) : Game π ι := g.internalCloseTrade player

end Game

inductive Action (π ι : Type*)
  | requestTrade (r : Request π ι)
  | acceptTrade (player : π) (a : Acceptance ι)
  | closeTrade (player : π)

def apply (g : Game π ι) : Action π ι → Game π ι
  | .requestTrade r => g.playerRequestTrade r
  | .acceptTrade player a => g.playerAcceptTrade player a
  | .closeTrade player => g.playerCloseTrade player

end OTServBR.Trade
