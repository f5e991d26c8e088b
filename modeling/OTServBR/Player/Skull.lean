import Mathlib.Data.Nat.Notation
import Mathlib.Data.Int.Notation
import OTServBR.Lib.Run

/-! # Skulls

Unjustified kills give a player a red or a black skull for a number of days. The
time that is left is counted down while the player is online, stored as the time
of its end when he is saved, and counted on from there at the next login.
-/

namespace OTServBR.Skull

inductive Skulls
  | none | yellow | green | white | red | black | orange
  deriving DecidableEq, Repr

inductive WorldType
  | noPvp | pvp | pvpEnforced
  deriving DecidableEq, Repr

structure Config where
  worldType : WorldType := .pvp
  fragTime : ℤ := 45 * 24 * 60 * 60
  dayKillsToRed : ℤ := 3
  weekKillsToRed : ℤ := 5
  monthKillsToRed : ℤ := 10
  redSkullDuration : ℕ := 30
  blackSkullDuration : ℕ := 45

structure Kill where
  target : ℕ
  time : ℤ
  unavenged : Bool
  deriving DecidableEq, Repr

structure Player where
  guid : ℕ
  notGainInFight : Bool := false
  skull : Skulls := .none
  skullTicks : ℤ := 0
  unjustifiedKills : List Kill := []
  deriving DecidableEq

/-- The rows of a player in `players` and `player_kills`, with the flag of the group in the
row. -/
structure Row where
  id : ℕ
  notGainInFight : Bool := false
  skulltime : ℤ := 0
  skull : Skulls := .none
  kills : List Kill := []

namespace Player

variable (cfg : Config) (now : ℤ) (p : Player)

/-- The kills that are at most a number of seconds old, in a counter of eight bits. -/
def killsWithin (seconds : ℤ) : UInt8 :=
  p.unjustifiedKills.foldl (fun n kill => if now - kill.time ≤ seconds then n + 1 else n) 0

/-- One of the three counters reaches a multiple of what a red skull takes. -/
def Reaches (factor : ℤ) : Prop :=
  factor * cfg.dayKillsToRed ≤ (p.killsWithin now (4 * 60 * 60)).toNat ∨
    factor * cfg.weekKillsToRed ≤ (p.killsWithin now (7 * 24 * 60 * 60)).toNat ∨
    factor * cfg.monthKillsToRed ≤ (p.killsWithin now (30 * 24 * 60 * 60)).toNat

instance (factor : ℤ) : Decidable (p.Reaches cfg now factor) := by unfold Reaches; infer_instance

def addUnjustifiedDead (attacked : ℕ) : Player :=
  if p.notGainInFight ∨ attacked = p.guid ∨ cfg.worldType = .pvpEnforced then p
  else
    let p := { p with unjustifiedKills := p.unjustifiedKills ++ [⟨attacked, now, true⟩] }
    if p.skull = .black then p
    else if p.Reaches cfg now 2 then
      { p with skull := .black, skullTicks := cfg.blackSkullDuration * 24 * 60 * 60 * 1000 }
    else if p.Reaches cfg now 1 then
      { p with skull := .red, skullTicks := cfg.redSkullDuration * 24 * 60 * 60 * 1000 }
    else p

def checkSkullTicks (infight : Bool) (ticks : ℤ) : Player :=
  let newTicks := p.skullTicks - ticks
  let p := { p with skullTicks := if newTicks < 0 then 0 else newTicks }
  if (p.skull = .red ∨ p.skull = .black) ∧ p.skullTicks < 1 ∧ infight = false then
    { p with skull := .none }
  else p

def onThink (infight : Bool) (interval : ℕ) : Player :=
  if cfg.worldType = .pvpEnforced then p else p.checkSkullTicks infight (interval / 1000 : ℕ)

def save (row : Row) : Row :=
  if cfg.worldType = .pvpEnforced then { row with kills := p.unjustifiedKills }
  else
    { row with
      skulltime := if 0 < p.skullTicks then now + p.skullTicks else 0
      skull := if p.skull = .red then .red else if p.skull = .black then .black else .none
      kills := p.unjustifiedKills }

end Player

def loadPlayer (cfg : Config) (now : ℤ) (row : Row) : Player :=
  let p : Player :=
    { guid := row.id
      notGainInFight := row.notGainInFight
      unjustifiedKills := row.kills.filter fun kill => now - kill.time ≤ cfg.fragTime }
  if cfg.worldType = .pvpEnforced then p
  else
    let skullSeconds := row.skulltime - now
    if 0 < skullSeconds then
      { p with
        -- ensure that we round up the number of ticks
        skullTicks := skullSeconds + 2
        skull := if row.skull = .red then .red else if row.skull = .black then .black else .none }
    else p

/-- The clock in seconds, the player while he is online, and his rows in the database. -/
structure World where
  now : ℕ
  player : Option Player
  row : Row

inductive Action
  | kill (attacked : ℕ)
  | think (infight : Bool)
  | save
  | logout
  | login (gap : ℕ)
  deriving DecidableEq

namespace World

variable (cfg : Config) (w : World)

/-- Players that are online think once in a second (`EVENT_CREATURE_THINK_INTERVAL`). -/
def step : Action → World
  | .kill attacked => { w with player := w.player.map (·.addUnjustifiedDead cfg w.now attacked) }
  | .think infight =>
    { w with now := w.now + 1, player := w.player.map (·.onThink cfg infight 1000) }
  | .save =>
    match w.player with
    | none => w
    | some p => { w with row := p.save cfg w.now w.row }
  | .logout =>
    match w.player with
    | none => w
    | some p => { w with row := p.save cfg w.now w.row, player := none }
  | .login gap =>
    match w.player with
    | none =>
      { w with now := w.now + gap, player := some (loadPlayer cfg (w.now + gap : ℕ) w.row) }
    | some _ => w

/-- A player that has never killed. -/
def new (now id : ℕ) : World := ⟨now, none, { id := id }⟩

end World

end OTServBR.Skull
