import Mathlib.Data.List.Basic
import Mathlib.Logic.Function.Basic

/-! # Parties

A party keeps its leader, the list of its members and the list of the players
it invites. A player keeps the party he is in and the parties that invite him.
The two sides refer to each other by address, and a party that is left without
company is deleted. The events of the scripts accept.
-/

namespace OTServBR.Parties

structure Party (ι : Type*) where
  leader : ι
  memberList : List ι := []
  inviteList : List ι := []

namespace Party

variable {ι : Type*} (party : Party ι)

def empty : Bool := party.memberList.isEmpty && party.inviteList.isEmpty

/-- The players of the party. -/
def players : List ι := party.leader :: party.memberList

variable [DecidableEq ι]

/-- The party with a member as its leader, and the old leader in front of the members. -/
def passTo (player : ι) : Party ι :=
  { party with leader := player, memberList := party.leader :: party.memberList.erase player }

/-- The party without a member. -/
def without (player : ι) : Party ι :=
  { party with memberList := party.memberList.erase player }

/-- The party with an invitee as a member. -/
def joined (player : ι) : Party ι :=
  { party with
    inviteList := party.inviteList.erase player
    memberList := party.memberList ++ [player] }

def uninvited (player : ι) : Party ι :=
  { party with inviteList := party.inviteList.erase player }

def invited (player : ι) : Party ι :=
  { party with inviteList := party.inviteList ++ [player] }

end Party

/-- The players by number and the parties by address. -/
@[ext] structure Game (ι π : Type*) where
  online : ι → Bool := fun _ => false
  party : ι → Option π := fun _ => none
  invitePartyList : ι → List π := fun _ => []
  parties : π → Option (Party ι) := fun _ => none

namespace Game

variable {ι π : Type*} [DecidableEq ι] [DecidableEq π] (g : Game ι π)

/-! ## Players -/

def setParty (i : ι) (p : Option π) : Game ι π := { g with party := Function.update g.party i p }

def addPartyInvitation (i : ι) (p : π) : Game ι π :=
  if p ∈ g.invitePartyList i then g
  else { g with invitePartyList := Function.update g.invitePartyList i (p :: g.invitePartyList i) }

def removePartyInvitation (i : ι) (p : π) : Game ι π :=
  { g with
    invitePartyList := Function.update g.invitePartyList i
      ((g.invitePartyList i).filter fun q => q ≠ p) }

/-! ## The operations of a party

A party is reached through its address. Nothing is done at the address of a
deleted one, which no player keeps. -/

def modifyParty (p : π) (f : Party ι → Party ι) : Game ι π :=
  { g with parties := Function.update g.parties p ((g.parties p).map f) }

def disband (p : π) : Game ι π :=
  match g.parties p with
  | none => g
  | some party =>
    let g := g.setParty party.leader none
    let g := party.inviteList.foldl (fun g invitee => g.removePartyInvitation invitee p) g
    let g := party.memberList.foldl (fun g member => g.setParty member none) g
    { g with parties := Function.update g.parties p none }

def passPartyLeadership (p : π) (player : ι) : Game ι π :=
  match g.parties p with
  | none => g
  | some party =>
    if party.leader = player ∨ g.party player ≠ some p then g
    else g.modifyParty p fun party => party.passTo player

def isEmpty (p : π) : Bool := (g.parties p).any Party.empty

/-- Whether the party loses its last leader, and the party under the next one if it does not. -/
def findLeader (p : π) (party : Party ι) (player : ι) : Bool × Game ι π :=
  if party.leader = player then
    match party.memberList with
    | [] => (true, g)
    | front :: rest =>
      if rest.isEmpty && party.inviteList.isEmpty then (true, g)
      else (false, g.passPartyLeadership p front)
  else (false, g)

def leaveParty (p : π) (player : ι) : Game ι π :=
  match g.parties p with
  | none => g
  | some party =>
    if g.party player ≠ some p ∧ party.leader ≠ player then g
    else
      let (missingLeader, g) := g.findLeader p party player
      let g := g.modifyParty p fun party => party.without player
      let g := g.setParty player none
      if missingLeader || g.isEmpty p then g.disband p else g

def joinParty (p : π) (player : ι) : Game ι π :=
  match g.parties p with
  | none => g
  | some party =>
    if player ∈ party.inviteList then
      let g := g.modifyParty p fun party => party.joined player
      (g.setParty player (some p)).removePartyInvitation player p
    else g

def removeInvite (p : π) (player : ι) (removeFromPlayer : Bool) : Game ι π :=
  match g.parties p with
  | none => g
  | some party =>
    if player ∈ party.inviteList then
      let g := g.modifyParty p fun party => party.uninvited player
      let g := if removeFromPlayer then g.removePartyInvitation player p else g
      if g.isEmpty p then g.disband p else g
    else g

def revokeInvitation (p : π) (player : ι) : Game ι π := g.removeInvite p player true

def invitePlayer (p : π) (player : ι) : Game ι π :=
  match g.parties p with
  | none => g
  | some party =>
    if player ∈ party.inviteList then g
    else (g.modifyParty p fun party => party.invited player).addPartyInvitation player p

/-- A party that is disbanded here invites nobody any more, so the list stays as it is while the
loop goes through it. -/
def clearPartyInvitations (player : ι) : Game ι π :=
  let g := (g.invitePartyList player).foldl (fun g p => g.removeInvite p player false) g
  { g with invitePartyList := Function.update g.invitePartyList player [] }

/-! ## Requests of the players -/

/-- Whether the player leads the party. -/
def leads (p : π) (player : ι) : Bool := (g.parties p).any fun party => party.leader = player

def isInviting (inviter player : ι) : Bool :=
  (g.party inviter).any fun p =>
    g.leads p inviter && (g.parties p).any fun party => player ∈ party.inviteList

def isPartner (player other : ι) : Bool :=
  (g.party player).isSome && other ≠ player && g.party player = g.party other

/-- A new party takes the address `new`. -/
def playerInviteToParty (playerId invitedId : ι) (new : π) : Game ι π :=
  if playerId = invitedId then g
  else if !g.online playerId || !g.online invitedId || g.isInviting invitedId playerId then g
  else if (g.party invitedId).isSome then g
  else
    match g.party playerId with
    | none =>
      let g := { g with parties := Function.update g.parties new (some { leader := playerId }) }
      (g.setParty playerId (some new)).invitePlayer new invitedId
    | some p => if g.leads p playerId then g.invitePlayer p invitedId else g

def playerJoinParty (playerId leaderId : ι) : Game ι π :=
  if !g.online playerId || !g.online leaderId || !g.isInviting leaderId playerId then g
  else
    match g.party leaderId with
    | none => g
    | some p =>
      if !g.leads p leaderId then g
      else if (g.party playerId).isSome then g
      else g.joinParty p playerId

def playerRevokePartyInvitation (playerId invitedId : ι) : Game ι π :=
  if !g.online playerId then g
  else
    match g.party playerId with
    | none => g
    | some p =>
      if !g.leads p playerId then g
      else if !g.online invitedId || !g.isInviting playerId invitedId then g
      else g.revokeInvitation p invitedId

def playerPassPartyLeadership (playerId newLeaderId : ι) : Game ι π :=
  if !g.online playerId then g
  else
    match g.party playerId with
    | none => g
    | some p =>
      if !g.leads p playerId then g
      else if !g.online newLeaderId || !g.isPartner playerId newLeaderId then g
      else g.passPartyLeadership p newLeaderId

def playerLeaveParty (playerId : ι) (inFight : Bool) : Game ι π :=
  if !g.online playerId then g
  else
    match g.party playerId with
    | none => g
    | some p => if inFight then g else g.leaveParty p playerId

/-- A login makes a new player object. -/
def login (playerId : ι) : Game ι π :=
  if g.online playerId then g
  else
    { g with
      online := Function.update g.online playerId true
      party := Function.update g.party playerId none
      invitePartyList := Function.update g.invitePartyList playerId [] }

/-- `onRemoveCreature`, and then the player leaves the list of the players. -/
def logout (playerId : ι) : Game ι π :=
  if !g.online playerId then g
  else
    let g := g.clearPartyInvitations playerId
    let g := match g.party playerId with
      | none => g
      | some p => g.leaveParty p playerId
    { g with online := Function.update g.online playerId false }

end Game

inductive Action (ι π : Type*)
  | invite (playerId invitedId : ι) (new : π)
  | join (playerId leaderId : ι)
  | revoke (playerId invitedId : ι)
  | passLeadership (playerId newLeaderId : ι)
  | leave (playerId : ι) (inFight : Bool)
  | login (playerId : ι)
  | logout (playerId : ι)

namespace Game

variable {ι π : Type*} [DecidableEq ι] [DecidableEq π]

def step (g : Game ι π) : Action ι π → Game ι π
  | .invite playerId invitedId new => g.playerInviteToParty playerId invitedId new
  | .join playerId leaderId => g.playerJoinParty playerId leaderId
  | .revoke playerId invitedId => g.playerRevokePartyInvitation playerId invitedId
  | .passLeadership playerId newLeaderId => g.playerPassPartyLeadership playerId newLeaderId
  | .leave playerId inFight => g.playerLeaveParty playerId inFight
  | .login playerId => g.login playerId
  | .logout playerId => g.logout playerId

/-- The allocator gives an address that no party has. -/
def Fresh (g : Game ι π) : Action ι π → Prop
  | .invite _ _ new => g.parties new = none
  | _ => True

instance (g : Game ι π) (action : Action ι π) : Decidable (g.Fresh action) :=
  match action with
  | .invite _ _ new => inferInstanceAs (Decidable (g.parties new = none))
  | .join .. | .revoke .. | .passLeadership .. | .leave .. | .login _ | .logout _ => isTrue trivial

end Game

end OTServBR.Parties
