import OTServBR.Map.Cache

/-! # Monsters and what they see

Monsters keep a list of targets. They are told when a creature appears near
them, moves or is removed, and they look around when they appear or move
themselves. Those who are told are the spectators of a position, whose range is
larger than the sight of a monster.
-/

namespace OTServBR.Targets

inductive Kind
  | player (ignoredByMonsters : Bool)
  | monster
  | npc
  deriving DecidableEq

structure Creature (ι : Type*) where
  kind : Kind
  master : Option ι := none
  position : Position := {}
  health : ℤ := 100
  isRemoved : Bool := false
  hasConditions : Bool := false

/-- `Creature::canSee` of two positions and a range. -/
def canSee (myPos pos : Position) (viewRangeX viewRangeY : ℤ) : Bool :=
  let myZ : ℤ := myPos.z.toNat
  let z : ℤ := pos.z.toNat
  if myZ ≤ 7 ∧ z > 7 then false
  else if ¬ myZ ≤ 7 ∧ myZ ≥ 8 ∧ (myZ - z).natAbs > 2 then false
  else
    let offsetz := myZ - z
    let myX : ℤ := myPos.x.toNat
    let myY : ℤ := myPos.y.toNat
    let x : ℤ := pos.x.toNat
    let y : ℤ := pos.y.toNat
    decide (x ≥ myX - viewRangeX + offsetz ∧ x ≤ myX + viewRangeX + offsetz ∧
      y ≥ myY - viewRangeY + offsetz ∧ y ≤ myY + viewRangeY + offsetz)

/-- Whether `getSpectators` of a position finds a creature at another one. -/
def inRange (centerPos cpos : Position) : Bool :=
  centerPos.z.toNat < MAP_MAX_LAYERS ∧
    (Map.Query.view centerPos false).ranges.Contains centerPos cpos

/-- The creatures, those that are on the map, and what the monsters keep. -/
structure World (ι : Type*) where
  creature : ι → Creature ι
  placed : List ι := []
  targetList : ι → List ι := fun _ => []
  isIdle : ι → Bool := fun _ => false

/-- The order in which a hash set is gone through. -/
structure HashOrder (ι : Type*) where
  order : List ι → List ι
  perm : ∀ l, (order l).Perm l

namespace World

variable {ι : Type*} [DecidableEq ι] (o : HashOrder ι) (w : World ι)

def modify (c : ι) (f : Creature ι → Creature ι) : World ι :=
  { w with creature := Function.update w.creature c (f (w.creature c)) }

def setTargetList (m : ι) (l : List ι) : World ι :=
  { w with targetList := Function.update w.targetList m l }

/-! ## The list of a monster -/

omit [DecidableEq ι] in
variable {w} in
def isPlayer (w : World ι) (c : ι) : Bool :=
  match (w.creature c).kind with
  | .player _ => true
  | _ => false

/-- A player that monsters do not ignore, or the summon of a player. -/
def isProvoking (c : ι) : Bool :=
  (match (w.creature c).kind with
    | .player ignored => !ignored
    | _ => false) ||
  (match (w.creature c).master with
    | some master => w.isPlayer master
    | none => false)

def isOpponent (m c : ι) : Bool :=
  match (w.creature m).master with
  | some master => if w.isPlayer master then c != master else w.isProvoking c
  | none => w.isProvoking c

/-- `Monster::canSee`. -/
def sees (m : ι) (pos : Position) : Bool := canSee (w.creature m).position pos 10 10

def addTarget (m c : ι) (pushFront : Bool) : World ι :=
  if c ∈ w.targetList m then w
  else w.setTargetList m (if pushFront then c :: w.targetList m else w.targetList m ++ [c])

def removeTarget (m c : ι) : World ι := w.setTargetList m ((w.targetList m).erase c)

def setIdle (m : ι) (idle : Bool) : World ι :=
  if (w.creature m).isRemoved ∨ (w.creature m).health ≤ 0 then w
  else
    let w := { w with isIdle := Function.update w.isIdle m idle }
    if idle then w.setTargetList m [] else w

def updateIdleStatus (m : ι) : World ι :=
  w.setIdle m (!(w.creature m).hasConditions && (w.creature m).master.isNone &&
    (w.targetList m).isEmpty)

def onCreatureFound (m c : ι) (pushFront : Bool) : World ι :=
  (if w.isOpponent m c then w.addTarget m c pushFront else w).updateIdleStatus m

def onCreatureEnter (m c : ι) : World ι := w.onCreatureFound m c true

def onCreatureLeave (m c : ι) : World ι :=
  if w.isOpponent m c then
    let w := w.removeTarget m c
    if (w.targetList m).isEmpty then w.updateIdleStatus m else w
  else w

def getSpectators (pos : Position) : List ι :=
  w.placed.filter fun s => inRange pos (w.creature s).position

def updateTargetList (m : ι) : World ι :=
  let w := w.setTargetList m ((w.targetList m).filter fun c =>
    !((w.creature c).health ≤ 0 || !w.sees m (w.creature c).position))
  (o.order ((w.getSpectators (w.creature m).position).erase m)).foldl (fun w c =>
    if w.sees m (w.creature c).position then w.onCreatureFound m c false else w) w

/-- `Monster::onFollowCreatureComplete`. -/
def onFollowCreatureComplete (m c : ι) (hasFollowPath : Bool) : World ι :=
  if c ∈ w.targetList m then
    let rest := (w.targetList m).erase c
    if hasFollowPath then w.setTargetList m (c :: rest)
    else if (w.creature m).master.isNone then w.setTargetList m (rest ++ [c])
    else w.setTargetList m rest
  else w

/-! ## What spectators are told -/

def onCreatureAppear (s c : ι) : World ι :=
  if (w.creature s).kind ≠ .monster then w
  else if c = s then (w.updateTargetList o s).updateIdleStatus s
  else w.onCreatureEnter s c

/-- `setMaster(nullptr)` of a creature that is removed, unless its master was removed before. -/
def leaveMaster (c : ι) : World ι :=
  match (w.creature c).master with
  | some master =>
    if (w.creature master).isRemoved then w else w.modify c fun a => { a with master := none }
  | none => w

def onRemoveCreature (s c : ι) : World ι :=
  let w := if c = s then w.leaveMaster c else w
  if (w.creature s).kind ≠ .monster then w
  else if c = s then w.setIdle s true
  else w.onCreatureLeave s c

def onCreatureMove (s c : ι) (newPos oldPos : Position) : World ι :=
  if (w.creature s).kind ≠ .monster then w
  else if c = s then (w.updateTargetList o s).updateIdleStatus s
  else
    let canSeeNewPos := w.sees s newPos
    let canSeeOldPos := w.sees s oldPos
    let w :=
      if canSeeNewPos && !canSeeOldPos then w.onCreatureEnter s c
      else if !canSeeNewPos && canSeeOldPos then w.onCreatureLeave s c
      else w
    w.updateIdleStatus s

/-! ## Placing, moving and removing -/

/-- `Game::placeCreature` of a new creature on a tile of the map. -/
def placeCreature (c : ι) (data : Creature ι) (pos : Position) : World ι :=
  let w : World ι :=
    { w with
      creature := Function.update w.creature c { data with position := pos, isRemoved := false }
      placed := w.placed ++ [c]
      targetList := Function.update w.targetList c [] }
  (o.order (w.getSpectators pos)).foldl (fun w s => w.onCreatureAppear o s c) w

/-- `Map::moveCreature`: by a step or by a teleport. -/
def moveCreature (c : ι) (newPos : Position) : World ι :=
  let oldPos := (w.creature c).position
  let spectators := o.order (w.placed.filter fun s =>
    inRange oldPos (w.creature s).position || inRange newPos (w.creature s).position)
  let w := w.modify c fun a => { a with position := newPos }
  spectators.foldl (fun w s => w.onCreatureMove o s c newPos oldPos) w

/-- `creature->summons`. -/
def summons (c : ι) : List ι := w.placed.filter fun s => (w.creature s).master = some c

/-- `Game::removeCreature` of a creature alone. -/
def removeOne (c : ι) : World ι :=
  let spectators := o.order (w.getSpectators (w.creature c).position)
  let w := { w with placed := w.placed.erase c }
  (spectators.foldl (fun w s => w.onRemoveCreature s c) w).modify c
    fun a => { a with isRemoved := true }

/-- `Game::removeCreature`, then of the summons; no creature is removed twice, so that there are
no more calls inside each other than creatures. -/
def removeCreature : ℕ → World ι → ι → World ι
  | 0, w, _ => w
  | n + 1, w, c =>
    if (w.creature c).isRemoved then w
    else
      let w := w.removeOne o c
      (w.summons c).foldl (removeCreature n) w

/-! ## Health -/

/-- `Creature::drainHealth`. -/
def drainHealth (c : ι) (damage : ℕ) : World ι :=
  w.modify c fun a => { a with health := max 0 (a.health - damage) }

/-- `Monster::death`. -/
def monsterDeath (c : ι) : World ι :=
  let w := (w.summons c).foldl (fun w s => w.modify s fun a =>
    { a with health := max 0 (a.health - a.health), master := none }) w
  w.setTargetList c []

/-- `Creature::onDeath`. A player has health again afterwards, and one that was killed by a player
in a PvP zone, where it drops no corpse, is moved to its temple. -/
def onDeath (c : ι) (health : ℕ) (temple : Option Position) : World ι :=
  let w :=
    match (w.creature c).kind with
    | .player _ => w.modify c fun a => { a with health := health }
    | .monster => w.monsterDeath c
    | .npc => w
  let w := w.modify c fun a => { a with master := none }
  match temple with
  | some pos => w.moveCreature o c pos
  | none => w.removeCreature o (w.placed.length + 1) c

end World

/-! ## Runs -/

inductive Action (ι : Type*)
  | place (c : ι) (data : Creature ι) (pos : Position)
  | move (c : ι) (newPos : Position)
  | remove (c : ι)
  | drain (c : ι) (damage : ℕ)
  | death (c : ι) (health : ℕ) (temple : Option Position)
  | follow (m c : ι) (hasFollowPath : Bool)

namespace World

variable {ι : Type*} [DecidableEq ι] (o : HashOrder ι) (w : World ι)

/-- Whether the game can do an action: only new creatures are placed, monsters maybe with a master
on the map, and what else is done is done to creatures on the map, on one of its floors. -/
def Possible : Action ι → Prop
  | .place c data pos =>
    c ∉ w.placed ∧ (w.creature c).isRemoved = false ∧ pos.z.toNat < MAP_MAX_LAYERS ∧
      ∀ master ∈ data.master, data.kind = .monster ∧ master ∈ w.placed
  | .move c newPos => c ∈ w.placed ∧ newPos.z.toNat < MAP_MAX_LAYERS
  | .remove c => c ∈ w.placed
  | .drain c _ => c ∈ w.placed
  | .death c _ temple => c ∈ w.placed ∧ (w.creature c).health ≤ 0 ∧
      ∀ pos ∈ temple, w.isPlayer c ∧ pos.z.toNat < MAP_MAX_LAYERS
  | .follow m _ _ => m ∈ w.placed

instance (a : Action ι) : Decidable (w.Possible a) := by
  cases a <;> unfold Possible <;> infer_instance

def step (a : Action ι) : World ι :=
  if w.Possible a then
    match a with
    | .place c data pos => w.placeCreature o c data pos
    | .move c newPos => w.moveCreature o c newPos
    | .remove c => w.removeCreature o (w.placed.length + 1) c
    | .drain c damage => w.drainHealth c damage
    | .death c health temple => w.onDeath o c health temple
    | .follow m c hasFollowPath => w.onFollowCreatureComplete m c hasFollowPath
  else w

end World

end OTServBR.Targets
