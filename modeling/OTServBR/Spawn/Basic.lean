import OTServBR.Item.Basic
import OTServBR.Lib.Run

/-! # Spawns

A spawn brings a monster for each of its entries. A check looks from time to
time which entries have none. A blockable monster comes at once; another one is
announced three times before it comes, and the announcements are events of
their own.
-/

namespace OTServBR

inductive RespawnType
  | all | day | night | dayCave | nightCave
  deriving DecidableEq, Repr

structure MonsterType where
  isBlockable : Bool := true
  respawnType : RespawnType := .all
  deriving DecidableEq, Repr

def MonsterType.canSpawn (mType : MonsterType) (isday : Bool) (pos : Position) : Bool :=
  match mType.respawnType with
  | .all => true
  | .day => isday
  | .night => !isday
  | .dayCave => isday || pos.z != 7
  | .nightCave => !isday || pos.z != 7

structure SpawnBlock where
  pos : Position
  mType : MonsterType
  lastSpawn : ℕ := 0
  interval : ℕ
  direction : ℕ := 0
  deriving DecidableEq, Repr

namespace Spawn

/-- `MINSPAWN_INTERVAL` and `NONBLOCKABLE_SPAWN_INTERVAL`, in milliseconds. -/
def minSpawnInterval : ℕ := 1000
def nonblockableSpawnInterval : ℕ := 1400

/-- A scheduled call of `scheduleSpawn` and the time from which it can run. -/
structure ScheduledSpawn where
  time : ℕ
  spawnId : ℕ
  sb : SpawnBlock
  interval : ℕ
  deriving DecidableEq, Repr

/-- The members of a spawn, and of the server the time, the scheduled events, and the monsters
that were ever spawned, by number. -/
structure State where
  spawnedMap : List (ℕ × ℕ) := []
  spawnMap : List (ℕ × SpawnBlock) := []
  interval : ℕ := 60000
  /-- When the next check can run. -/
  checkSpawnEvent : Option ℕ := none
  now : ℕ := 0
  scheduled : List ScheduledSpawn := []
  monsters : ℕ := 0
  removed : List ℕ := []
  deriving DecidableEq

/-- What a check finds: the daylight, where players are, for which entries there is room, and the
rate of spawns. -/
structure Surroundings where
  isday : Bool := true
  findPlayer : Position → Bool := fun _ => false
  room : ℕ → Bool := fun _ => true
  rateSpawn : ℕ := 1

namespace State

variable (s : State) (e : Surroundings)

def addMonster (mType : MonsterType) (pos : Position) (direction scheduleInterval : ℕ) : State :=
  { s with
    interval := min s.interval scheduleInterval
    spawnMap := s.spawnMap ++
      [(s.spawnMap.length + 1, ⟨pos, mType, 0, scheduleInterval, direction⟩)] }

def startSpawnCheck : State :=
  match s.checkSpawnEvent with
  | none => { s with checkSpawnEvent := some (s.now + s.interval) }
  | some _ => s

def setLastSpawn (spawnId : ℕ) : State :=
  { s with
    spawnMap := s.spawnMap.map fun p =>
      if p.1 = spawnId then (p.1, { p.2 with lastSpawn := s.now }) else p }

/-- The monster is placed if there is room. -/
def spawnMonster (spawnId : ℕ) (room : Bool) : State :=
  if room then
    { s with
      spawnedMap := s.spawnedMap ++ [(spawnId, s.monsters)]
      monsters := s.monsters + 1 }.setLastSpawn spawnId
  else s

def startup (room : ℕ → Bool) : State :=
  (s.spawnMap.map (·.1)).foldl (fun s spawnId => s.spawnMonster spawnId (room spawnId)) s

def scheduleSpawn (spawnId : ℕ) (sb : SpawnBlock) (interval : ℕ) (room : Bool) : State :=
  if interval = 0 then s.spawnMonster spawnId room
  else
    { s with
      scheduled := s.scheduled ++
        [⟨s.now + 1400, spawnId, sb, interval - nonblockableSpawnInterval⟩] }

/-- Monsters that are removed leave the map. -/
def cleanup : State :=
  { (s.spawnedMap.filter fun p => p.2 ∈ s.removed).foldl (fun s p => s.setLastSpawn p.1) s with
    spawnedMap := s.spawnedMap.filter fun p => p.2 ∉ s.removed }

def checkEntries : List (ℕ × SpawnBlock) → ℕ → State → State
  | [], _, s => s
  | (spawnId, sb) :: entries, spawnCount, s =>
    if s.spawnedMap.any (·.1 == spawnId) then checkEntries entries spawnCount s
    else if !sb.mType.canSpawn e.isday sb.pos then
      checkEntries entries spawnCount (s.setLastSpawn spawnId)
    else if s.now ≥ sb.lastSpawn + sb.interval then
      if sb.mType.isBlockable && e.findPlayer sb.pos then
        checkEntries entries spawnCount (s.setLastSpawn spawnId)
      else
        let s :=
          if sb.mType.isBlockable then s.spawnMonster spawnId (e.room spawnId)
          else s.scheduleSpawn spawnId sb (3 * nonblockableSpawnInterval) (e.room spawnId)
        if spawnCount + 1 ≥ e.rateSpawn then s else checkEntries entries (spawnCount + 1) s
    else checkEntries entries spawnCount s

def checkSpawn : State :=
  let s := { s with checkSpawnEvent := none }.cleanup
  let s := checkEntries e s.spawnMap 0 s
  if s.spawnedMap.length < s.spawnMap.length then
    { s with checkSpawnEvent := some (s.now + s.interval) }
  else s

/-- `removeMonster` of the spawn. -/
def removeMonster (monster : ℕ) : State :=
  { s with spawnedMap := s.spawnedMap.eraseP (·.2 == monster) }

/-- A monster dies or is removed from the game; a script can keep the check from starting. -/
def removeCreature (monster : ℕ) (handled : Bool) : State :=
  { if handled then s else s.startSpawnCheck with removed := s.removed ++ [monster] }

end State

/-- A monster of a spawn in the file: its type is not found, or it is added. -/
structure Child where
  mType : Option MonsterType
  pos : Position
  direction : ℕ
  interval : ℕ

/-- A child with a shorter interval is left out with a warning. -/
def loadFromXml (children : List Child) : State :=
  children.foldl (fun s c =>
    match c.mType with
    | some mType =>
      if c.interval > minSpawnInterval then s.addMonster mType c.pos c.direction c.interval else s
    | none => s) {}

/-- The state right after the start of the spawns; one that a script adds later is not started. -/
def initial (children : List Child) : Option (ℕ → Bool) → State
  | some room => (loadFromXml children).startup room
  | none => loadFromXml children

inductive Action
  | startSpawnCheck
  | checkSpawn (e : Surroundings)
  /-- A scheduled event runs. -/
  | scheduleSpawn (index : ℕ) (room : Bool)
  | removeCreature (monster : ℕ) (handled : Bool)
  | removeMonster (monster : ℕ)
  | elapse (time : ℕ)

def Enabled (s : State) : Action → Prop
  | .checkSpawn _ => ∃ time ∈ s.checkSpawnEvent, time ≤ s.now
  | .scheduleSpawn index _ => ∃ event ∈ s.scheduled[index]?, event.time ≤ s.now
  | .removeCreature monster _ => monster < s.monsters ∧ monster ∉ s.removed
  | .startSpawnCheck | .removeMonster _ | .elapse _ => True

def apply (s : State) : Action → State
  | .startSpawnCheck => s.startSpawnCheck
  | .checkSpawn e => s.checkSpawn e
  | .scheduleSpawn index room =>
    match s.scheduled[index]? with
    | some event =>
      { s with scheduled := s.scheduled.eraseIdx index }.scheduleSpawn event.spawnId event.sb
        event.interval room
    | none => s
  | .removeCreature monster handled => s.removeCreature monster handled
  | .removeMonster monster => s.removeMonster monster
  | .elapse time => { s with now := s.now + time }

end Spawn

end OTServBR
