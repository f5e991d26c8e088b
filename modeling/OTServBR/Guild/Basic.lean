import Mathlib.Data.Nat.Notation
import Mathlib.Logic.Function.Basic

/-! # Guilds

The game knows the guilds of the players that are online. A player has a pointer
to his guild and a rank in it, and the guild has a list of the members that are
online. The last of them takes the guild out of the game.
-/

namespace OTServBR.Guilds

variable {π : Type*} [DecidableEq π]

structure GuildRank where
  id : ℕ
  name : String
  level : UInt8
  deriving DecidableEq, Repr

structure Guild (π : Type*) where
  membersOnline : List π := []
  ranks : List GuildRank := []

namespace Guild

variable (guild : Guild π)

def getRankById (rankId : ℕ) : Option GuildRank := guild.ranks.find? (·.id == rankId)

def getRankByLevel (level : UInt8) : Option GuildRank := guild.ranks.find? (·.level == level)

end Guild

structure Player where
  online : Bool := false
  guild : Option ℕ := none
  guildRank : Option GuildRank := none
  guildNick : String := ""
  deriving DecidableEq

/-- The players, and the guilds in the game by their ids. -/
structure Game (π : Type*) where
  players : π → Player := fun _ => {}
  guilds : ℕ → Option (Guild π) := fun _ => none

/-- What the database says of a player in a guild: the ranks that `IOGuild::loadGuild` finds,
and the row of `guild_ranks` for the rank of the player. -/
structure Membership where
  guildId : ℕ
  guildRanks : List GuildRank
  rankId : ℕ
  rank : Option GuildRank
  nick : String

namespace Game

variable (g : Game π)

/-- The guild behind a pointer. -/
def guild (id : ℕ) : Guild π := (g.guilds id).getD {}

/-- `Game::getGuild` -/
def getGuild (id : ℕ) : Option ℕ := (g.guilds id).map fun _ => id

def setPlayer (p : π) (player : Player) : Game π :=
  { g with players := Function.update g.players p player }

def updateGuild (id : ℕ) (guild : Option (Guild π)) : Game π :=
  { g with guilds := Function.update g.guilds id guild }

def addMember (id : ℕ) (p : π) : Game π :=
  g.updateGuild id (some { g.guild id with membersOnline := (g.guild id).membersOnline ++ [p] })

def removeMember (id : ℕ) (p : π) : Game π :=
  let guild := { g.guild id with membersOnline := (g.guild id).membersOnline.filter (· ≠ p) }
  g.updateGuild id (if guild.membersOnline.isEmpty then none else some guild)

def removeFrom (p : π) : Option ℕ → Game π
  | some id => g.removeMember id p
  | none => g

def setGuild (p : π) (newGuild : Option ℕ) : Game π :=
  let player := g.players p
  if newGuild = player.guild then g
  else
    let oldGuild := player.guild
    let player := { player with guildNick := "", guild := none, guildRank := none }
    match newGuild with
    | some id =>
      match (g.guild id).getRankByLevel 1 with
      | none => g.setPlayer p player
      | some rank =>
        let player := { player with guild := some id, guildRank := some rank }
        ((g.setPlayer p player).addMember id p).removeFrom p oldGuild
    | none => (g.setPlayer p player).removeFrom p oldGuild

def addRank (id : ℕ) : Option GuildRank → Game π
  | some rank => g.updateGuild id (some { g.guild id with ranks := (g.guild id).ranks ++ [rank] })
  | none => g

/-- The guild of a player who logs in, which is loaded if it is not in the game. -/
def loadGuild (m : Membership) : Game π :=
  let g :=
    match g.guilds m.guildId with
    | some _ => g
    | none => g.updateGuild m.guildId (some { ranks := m.guildRanks })
  match (g.guild m.guildId).getRankById m.rankId with
  | some _ => g
  | none => g.addRank m.guildId m.rank

/-- A player is loaded and appears. -/
def login (p : π) (membership : Option Membership) : Game π :=
  if (g.players p).online then g
  else
    match membership with
    | none => g.setPlayer p { online := true }
    | some m =>
      let g := g.loadGuild m
      match (g.guild m.guildId).getRankById m.rankId with
      | some rank =>
        let player : Player :=
          { online := true
            guild := some m.guildId
            guildRank := some rank
            guildNick := m.nick }
        (g.setPlayer p player).addMember m.guildId p
      | none => g.setPlayer p { online := true, guildNick := m.nick }

/-- A player disappears. -/
def logout (p : π) : Game π :=
  (g.removeFrom p (g.players p).guild).setPlayer p {}

end Game

/-- The calls of `setGuild`, with a guild that `getGuild` returns, and what else changes the
members. -/
inductive Action (π : Type*)
  | setGuild (p : π) (id : Option ℕ)
  | login (p : π) (membership : Option Membership)
  | logout (p : π)

def apply (g : Game π) : Action π → Game π
  | .setGuild p id => if (g.players p).online then g.setGuild p (id.bind g.getGuild) else g
  | .login p membership => g.login p membership
  | .logout p => g.logout p

end OTServBR.Guilds
