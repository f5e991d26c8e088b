import OTServBR.Item.Basic

/-! # What a client sees

The view of a client is a rectangle around the player, which moves along with
the floors above and below.
-/

namespace OTServBR.ProtocolGame

/-- A creature as the protocol looks at it; `isSeen` is `Player::canSeeCreature`. -/
structure Creature where
  position : Position
  removed : Bool := false
  isSeen : Bool := true

/-- `ProtocolGame::canSee` of coordinates, which may lie outside of the map. -/
def canSee (myPos : Position) (x y z : ℤ) : Bool :=
  let myZ : ℤ := myPos.z.toNat
  if myZ ≤ 7 ∧ z > 7 then false
  else if myZ ≥ 8 ∧ (myZ - z).natAbs > 2 then false
  else
    let offsetz := myZ - z
    decide (x ≥ myPos.x.toNat - 8 + offsetz ∧ x ≤ myPos.x.toNat + 9 + offsetz ∧
      y ≥ myPos.y.toNat - 6 + offsetz ∧ y ≤ myPos.y.toNat + 7 + offsetz)

def canSeePosition (myPos pos : Position) : Bool :=
  canSee myPos pos.x.toNat pos.y.toNat pos.z.toNat

/-- `ProtocolGame::canSee` of what `Game::getCreatureByID` returns. -/
def canSeeCreature (myPos : Position) : Option Creature → Bool
  | none => false
  | some c =>
    if c.removed then false
    else if !c.isSeen then false
    else canSeePosition myPos c.position

end OTServBR.ProtocolGame
