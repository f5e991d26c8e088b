import Mathlib.Data.Int.Notation
import Mathlib.Data.List.Basic
import OTServBR.Lib.Run
import OTServBR.Condition.Basic

/-! # Effects of conditions

Attribute and speed conditions push their values into the creature when they
start and take them back when they end; a refresh swaps them. The values are
counters and always add up. The defence is one flag that each condition
overwrites.
-/

namespace OTServBR.Condition

/-- The types of a `ConditionSpeed`. -/
inductive SpeedType
  | haste
  | paralyze
  deriving DecidableEq, Repr

/-- What a condition of one of the two classes pushes into the creature. -/
inductive Effect
  | attributes (a : Attributes)
  | speed (type : SpeedType) (s : Speed)
  deriving DecidableEq, Repr

/-- A condition of one of the two classes; the effect tells its type. -/
structure Active where
  id : ConditionId
  subId : UInt32 := 0
  ticks : Int32
  endTime : ℤ := 0
  effect : Effect
  deriving DecidableEq, Repr

def Active.conditionType (a : Active) : ConditionType :=
  match a.effect with
  | .attributes _ => CONDITION_ATTRIBUTES
  | .speed .haste _ => CONDITION_HASTE
  | .speed .paralyze _ => CONDITION_PARALYZE

/-- The members of a player that attribute conditions change. -/
structure Bonus where
  varSkills : Vector Int32 13 := .replicate 13 0
  varStats : Vector Int32 5 := .replicate 5 0
  deriving DecidableEq, Repr

inductive Kind
  | player (bonus : Bonus)
  | monster
  | npc
  deriving DecidableEq, Repr

structure Creature where
  kind : Kind
  conditions : List Active := []
  baseSpeed : UInt32 := 220
  varSpeed : Int32 := 0
  canUseDefense : Bool := true
  deriving DecidableEq, Repr

/-- What a call reads of the world: the time, the delay of the next walk, the suppressed types,
and the number that `uniform_random` draws for a speed without a delta. -/
structure Moment where
  now : ℤ
  walkDelay : Creature → ℤ := fun _ => 0
  isSuppress : ConditionType → Bool := fun _ => false
  drawn : Int32 := 0

/-- `setVarSkill` or `setVarStats` for each value that is not zero. -/
def addValues {n : ℕ} (var values : Vector Int32 n) : Vector Int32 n :=
  var.zipWith (fun v m => if m ≠ 0 then v + m else v) values

def subValues {n : ℕ} (var values : Vector Int32 n) : Vector Int32 n :=
  var.zipWith (fun v m => if m ≠ 0 then v + -m else v) values

/-- `updateSkills` and `updateStats` -/
def Bonus.update (b : Bonus) (a : Attributes) : Bonus :=
  { varSkills := addValues b.varSkills a.skills, varStats := addValues b.varStats a.stats }

/-- The loops of `ConditionAttributes::endCondition`. -/
def Bonus.revert (b : Bonus) (a : Attributes) : Bonus :=
  { varSkills := subValues b.varSkills a.skills, varStats := subValues b.varStats a.stats }

namespace Creature

def getPlayer (c : Creature) : Option Bonus :=
  match c.kind with
  | .player b => some b
  | _ => none

def updatePlayer (c : Creature) (f : Bonus → Bonus) : Creature :=
  match c.kind with
  | .player b => { c with kind := .player (f b) }
  | _ => c

def setUseDefense (c : Creature) (useDefense : Bool) : Creature :=
  { c with canUseDefense := useDefense }

def getSpeed (c : Creature) : Int32 := (c.baseSpeed + c.varSpeed.toUInt32).toInt32

def changeSpeed (c : Creature) (varSpeedDelta : Int32) : Creature :=
  let varSpeed := (c.getSpeed.toUInt32 - c.baseSpeed).toInt32
  { c with varSpeed := varSpeed + varSpeedDelta }

def hasCondition (c : Creature) (m : Moment) (type : ConditionType) : Bool :=
  !m.isSuppress type && c.conditions.any fun a =>
    a.conditionType = type && a.subId = 0 && (m.now ≤ a.endTime || a.ticks = -1)

end Creature

namespace Active

def setTicks (a : Active) (m : Moment) (newTicks : Int32) : Active :=
  { a with ticks := newTicks, endTime := newTicks.toInt + m.now }

/-- `Condition::updateCondition` -/
def updateCondition (a : Active) (m : Moment) (addCondition : Active) : Bool :=
  a.conditionType = addCondition.conditionType &&
    !(a.ticks = -1 && 0 < addCondition.ticks) &&
    !(0 ≤ addCondition.ticks && m.now + addCondition.ticks.toInt < a.endTime)

/-- `Condition::executeCondition`; the flag tells whether the condition goes on. -/
def executeCondition (a : Active) (m : Moment) (interval : Int32) : Active × Bool :=
  if a.ticks = -1 then (a, true)
  else ({ a with ticks := max 0 (a.ticks - interval) }, m.now ≤ a.endTime)

end Active

def Speed.resolve (s : Speed) (m : Moment) : Speed :=
  if s.speedDelta = 0 then { s with speedDelta := m.drawn } else s

namespace Creature

/-- `startCondition` of the two classes, with the condition as it leaves it. -/
def startCondition (c : Creature) (m : Moment) (a : Active) : Creature × Active :=
  let a := if 0 < a.ticks then { a with endTime := a.ticks.toInt + m.now } else a
  match a.effect with
  | .attributes s => ((c.setUseDefense !s.disableDefense).updatePlayer (·.update s), a)
  | .speed type s =>
    let s := s.resolve m
    (c.changeSpeed s.speedDelta, { a with effect := .speed type s })

def endCondition (c : Creature) (a : Active) : Creature :=
  match a.effect with
  | .attributes s =>
    let c := c.updatePlayer (·.revert s)
    if s.disableDefense then c.setUseDefense true else c
  | .speed _ s => c.changeSpeed (-s.speedDelta)

/-- `addCondition` of the two classes, called on the condition that is there already. -/
def refreshCondition (c : Creature) (m : Moment) (prev addCondition : Active) :
    Creature × Active :=
  match prev.effect, addCondition.effect with
  | .attributes old, .attributes new =>
    if prev.updateCondition m addCondition then
      let c := c.endCondition prev
      let a := { old with skills := new.skills, stats := new.stats,
                          disableDefense := new.disableDefense }
      (c.updatePlayer (·.update a),
        { prev.setTicks m addCondition.ticks with effect := .attributes a })
    else (c, prev)
  | .speed type old, .speed newType new =>
    if type ≠ newType then (c, prev)
    else if prev.ticks = -1 && 0 < addCondition.ticks then (c, prev)
    else
      let s := new.resolve m
      let newSpeedChange := s.speedDelta - old.speedDelta
      (if newSpeedChange ≠ 0 then c.changeSpeed newSpeedChange else c,
        { prev.setTicks m addCondition.ticks with effect := .speed type s })
  | _, _ => (c, prev)

/-- The loop of `removeCondition`, `before` the conditions it has passed. A paralysis waits for
the walk unless the call is forced. -/
def removeLoop (m : Moment) (force : Bool) (p : Active → Bool) :
    List Active → List Active → Creature → Creature
  | _, [], c => c
  | before, a :: after, c =>
    if !p a then removeLoop m force p (before ++ [a]) after c
    else if !force && a.conditionType = CONDITION_PARALYZE && 0 < m.walkDelay c then c
    else removeLoop m force p before after
      ({ c with conditions := before ++ after }.endCondition a)

def removeCondition (c : Creature) (m : Moment) (type : ConditionType) (force : Bool) : Creature :=
  c.removeLoop m force (fun a => a.conditionType = type) [] c.conditions

def removeConditionById (c : Creature) (m : Moment) (type : ConditionType)
    (conditionId : ConditionId) (force : Bool) : Creature :=
  c.removeLoop m force (fun a => a.conditionType = type && a.id = conditionId) [] c.conditions

/-- `removeCondition` of one condition of the list. -/
def removeConditionAt (c : Creature) (m : Moment) (i : ℕ) (force : Bool) : Creature :=
  match c.conditions[i]? with
  | none => c
  | some a =>
    if !force && a.conditionType = CONDITION_PARALYZE && 0 < m.walkDelay c then c
    else { c with conditions := c.conditions.eraseIdx i }.endCondition a

/-- Monsters override this without a call of the base class. -/
def onAddCondition (c : Creature) (m : Moment) (type : ConditionType) : Creature :=
  match c.kind with
  | .monster => c
  | _ =>
    if type = CONDITION_PARALYZE && c.hasCondition m CONDITION_HASTE then
      c.removeCondition m CONDITION_HASTE false
    else if type = CONDITION_HASTE && c.hasCondition m CONDITION_PARALYZE then
      c.removeCondition m CONDITION_PARALYZE false
    else c

def getCondition (c : Creature) (type : ConditionType) (conditionId : ConditionId)
    (subId : UInt32) : Option (Fin c.conditions.length) :=
  c.conditions.findFinIdx? fun a =>
    a.conditionType = type && a.id = conditionId && a.subId = subId

/-- A haste waits for the walk of a paralysed creature. -/
def postpones (c : Creature) (m : Moment) (force : Bool) (a : Active) : Bool :=
  !force && a.conditionType = CONDITION_HASTE && c.hasCondition m CONDITION_PARALYZE &&
    0 < m.walkDelay c

def addCondition (c : Creature) (m : Moment) (a : Active) (force : Bool) : Creature :=
  if c.postpones m force a then c
  else
    match c.getCondition a.conditionType a.id a.subId with
    | some i =>
      let refreshed := c.refreshCondition m c.conditions[i] a
      { refreshed.1 with conditions := c.conditions.set i refreshed.2 }
    | none =>
      let started := c.startCondition m a
      { started.1 with conditions := c.conditions ++ [started.2] }.onAddCondition m a.conditionType

/-- The loop of `executeConditions`, `before` the conditions that go on. -/
def executeLoop (m : Moment) (interval : Int32) :
    List Active → List Active → Creature → Creature
  | _, [], c => c
  | before, a :: after, c =>
    let (a, goesOn) := a.executeCondition m interval
    if !goesOn then
      executeLoop m interval before after ({ c with conditions := before ++ after }.endCondition a)
    else executeLoop m interval (before ++ [a]) after { c with conditions := before ++ a :: after }

def executeConditions (c : Creature) (m : Moment) (interval : UInt32) : Creature :=
  c.executeLoop m interval.toInt32 [] c.conditions

end Creature

inductive Action
  | addCondition (a : Active) (force : Bool)
  | removeCondition (type : ConditionType) (force : Bool)
  | removeConditionById (type : ConditionType) (conditionId : ConditionId) (force : Bool)
  | removeConditionAt (i : ℕ) (force : Bool)
  | executeConditions (interval : UInt32)
  deriving DecidableEq, Repr

def Creature.step (c : Creature) : Moment × Action → Creature
  | (m, .addCondition a force) => c.addCondition m a force
  | (m, .removeCondition type force) => c.removeCondition m type force
  | (m, .removeConditionById type id force) => c.removeConditionById m type id force
  | (m, .removeConditionAt i force) => c.removeConditionAt m i force
  | (m, .executeConditions interval) => c.executeConditions m interval

namespace Active

def skill (i : Fin 13) (a : Active) : Int32 :=
  match a.effect with
  | .attributes s => s.skills[i]
  | .speed _ _ => 0

def stat (i : Fin 5) (a : Active) : Int32 :=
  match a.effect with
  | .attributes s => s.stats[i]
  | .speed _ _ => 0

def speedDelta (a : Active) : Int32 :=
  match a.effect with
  | .attributes _ => 0
  | .speed _ s => s.speedDelta

def disablesDefense (a : Active) : Bool :=
  match a.effect with
  | .attributes s => s.disableDefense
  | .speed _ _ => false

end Active

/-- The sum over a list of conditions. -/
def total (f : Active → Int32) (l : List Active) : Int32 := (l.map f).sum

/-- The counters of the creature are the sums over the conditions. -/
structure Creature.Balanced (c : Creature) (l : List Active) : Prop where
  skills : ∀ b, c.getPlayer = some b → ∀ i : Fin 13, b.varSkills[i] = total (·.skill i) l
  stats : ∀ b, c.getPlayer = some b → ∀ i : Fin 5, b.varStats[i] = total (·.stat i) l
  speed : c.varSpeed = total (·.speedDelta) l

/-- The creature holds exactly the effects of its active conditions. -/
structure Creature.Accounted (c : Creature) : Prop extends c.Balanced c.conditions where
  defense : c.canUseDefense = false ↔ ∃ a ∈ c.conditions, a.disablesDefense

theorem Active.disablesDefense_attributes {a : Active} (h : a.disablesDefense) :
    ∃ s, a.effect = .attributes s ∧ s.disableDefense = true := by
  unfold disablesDefense at h
  split at h
  · exact ⟨_, ‹_›, h⟩
  · cases h

theorem Active.conditionType_attributes {a : Active} {s : Attributes}
    (h : a.effect = .attributes s) : a.conditionType = CONDITION_ATTRIBUTES := by
  simp only [conditionType, h]

theorem Active.conditionType_speed {a : Active} {type : SpeedType} {s : Speed}
    (h : a.effect = .speed type s) : a.conditionType ≠ CONDITION_ATTRIBUTES := by
  have hhaste : CONDITION_HASTE ≠ CONDITION_ATTRIBUTES := by decide
  have hparalyze : CONDITION_PARALYZE ≠ CONDITION_ATTRIBUTES := by decide
  simp only [conditionType, h]
  cases type
  · exact hhaste
  · exact hparalyze

theorem Active.conditionType_of_disablesDefense {a : Active} (h : a.disablesDefense) :
    a.conditionType = CONDITION_ATTRIBUTES := by
  obtain ⟨s, hs, -⟩ := disablesDefense_attributes h
  exact conditionType_attributes hs

theorem attributes_ne_paralyze : CONDITION_ATTRIBUTES ≠ CONDITION_PARALYZE := by decide

theorem attributes_ne_haste : CONDITION_ATTRIBUTES ≠ CONDITION_HASTE := by decide

section total

variable {f : Active → Int32} {a a' : Active} {before after : List Active}

@[simp] theorem total_nil : total f [] = 0 := rfl

theorem total_middle : total f (before ++ a :: after) = total f (before ++ after) + f a := by
  unfold total
  rw [List.map_append, List.map_cons, List.sum_append, List.sum_cons, List.map_append,
    List.sum_append]
  grind

theorem total_replace : total f (before ++ a' :: after) =
    total f (before ++ a :: after) - f a + f a' := by
  rw [total_middle, total_middle]
  grind

end total

@[simp] theorem addValues_getElem {n : ℕ} (var values : Vector Int32 n) (i : ℕ) (h : i < n) :
    (addValues var values)[i] = var[i] + values[i] := by
  simp only [addValues, Vector.getElem_zipWith]
  split
  · rfl
  · grind

@[simp] theorem subValues_getElem {n : ℕ} (var values : Vector Int32 n) (i : ℕ) (h : i < n) :
    (subValues var values)[i] = var[i] - values[i] := by
  simp only [subValues, Vector.getElem_zipWith]
  split <;> grind

namespace Active

variable {a : Active} {s : Attributes} {type : SpeedType} {v : Speed}

theorem skill_attributes (h : a.effect = .attributes s) (i : Fin 13) :
    a.skill i = s.skills[i] := by
  simp only [skill, h]

theorem stat_attributes (h : a.effect = .attributes s) (i : Fin 5) : a.stat i = s.stats[i] := by
  simp only [stat, h]

theorem speedDelta_attributes (h : a.effect = .attributes s) : a.speedDelta = 0 := by
  simp only [speedDelta, h]

theorem skill_speed (h : a.effect = .speed type v) (i : Fin 13) : a.skill i = 0 := by
  simp only [skill, h]

theorem stat_speed (h : a.effect = .speed type v) (i : Fin 5) : a.stat i = 0 := by
  simp only [stat, h]

theorem speedDelta_speed (h : a.effect = .speed type v) : a.speedDelta = v.speedDelta := by
  simp only [speedDelta, h]

end Active

/-- The condition is over at its next turn. -/
def Active.expired (m : Moment) (a : Active) : Bool := a.ticks ≠ -1 && a.endTime < m.now

@[simp] theorem Active.executeCondition_effect (a : Active) (m : Moment) (interval : Int32) :
    (a.executeCondition m interval).1.effect = a.effect := by
  unfold executeCondition
  split <;> rfl

theorem Active.executeCondition_goesOn (a : Active) (m : Moment) (interval : Int32) :
    (a.executeCondition m interval).2 = !a.expired m := by
  unfold executeCondition expired
  split
  · simp [*]
  · simp [*, ← decide_not]

theorem Active.executeCondition_disablesDefense (a : Active) (m : Moment) (interval : Int32) :
    (a.executeCondition m interval).1.disablesDefense = a.disablesDefense := by
  simp only [disablesDefense, executeCondition_effect]

namespace Creature

variable {c : Creature} {m : Moment} {a prev : Active} {before after l : List Active}

@[simp] theorem changeSpeed_varSpeed (d : Int32) : (c.changeSpeed d).varSpeed = c.varSpeed + d := by
  simp only [changeSpeed, getSpeed, UInt32.toInt32_sub, UInt32.toInt32_add,
    Int32.toInt32_toUInt32]
  grind

@[simp] theorem changeSpeed_conditions (d : Int32) :
    (c.changeSpeed d).conditions = c.conditions := rfl

@[simp] theorem changeSpeed_canUseDefense (d : Int32) :
    (c.changeSpeed d).canUseDefense = c.canUseDefense := rfl

@[simp] theorem changeSpeed_getPlayer (d : Int32) :
    (c.changeSpeed d).getPlayer = c.getPlayer := rfl

@[simp] theorem setUseDefense_getPlayer (b : Bool) :
    (c.setUseDefense b).getPlayer = c.getPlayer := rfl

@[simp] theorem setUseDefense_varSpeed (b : Bool) :
    (c.setUseDefense b).varSpeed = c.varSpeed := rfl

@[simp] theorem setUseDefense_conditions (b : Bool) :
    (c.setUseDefense b).conditions = c.conditions := rfl

@[simp] theorem setUseDefense_canUseDefense (b : Bool) :
    (c.setUseDefense b).canUseDefense = b := rfl

@[simp] theorem updatePlayer_varSpeed (f : Bonus → Bonus) :
    (c.updatePlayer f).varSpeed = c.varSpeed := by
  unfold updatePlayer
  split <;> rfl

@[simp] theorem updatePlayer_conditions (f : Bonus → Bonus) :
    (c.updatePlayer f).conditions = c.conditions := by
  unfold updatePlayer
  split <;> rfl

@[simp] theorem updatePlayer_canUseDefense (f : Bonus → Bonus) :
    (c.updatePlayer f).canUseDefense = c.canUseDefense := by
  unfold updatePlayer
  split <;> rfl

@[simp] theorem updatePlayer_getPlayer (f : Bonus → Bonus) :
    (c.updatePlayer f).getPlayer = c.getPlayer.map f := by
  obtain ⟨kind, _, _, _, _⟩ := c
  cases kind <;> rfl

/-! ## The counters -/

/-- A player's values change by what the effect of one condition changes. -/
theorem Balanced.of_attributes {c' : Creature} {l' : List Active} (h : c.Balanced l)
    {f : Bonus → Bonus} (hplayer : c'.getPlayer = c.getPlayer.map f)
    (hspeed : c'.varSpeed = c.varSpeed)
    (hskills : ∀ (b : Bonus) (i : Fin 13),
      total (·.skill i) l' - total (·.skill i) l = (f b).varSkills[i] - b.varSkills[i])
    (hstats : ∀ (b : Bonus) (i : Fin 5),
      total (·.stat i) l' - total (·.stat i) l = (f b).varStats[i] - b.varStats[i])
    (hdelta : total (·.speedDelta) l' = total (·.speedDelta) l) : c'.Balanced l' := by
  constructor
  · intro b' hb' i
    obtain ⟨b, hb, rfl⟩ := Option.map_eq_some_iff.mp (hplayer ▸ hb')
    have hold := h.skills b hb i
    have hchange := hskills b i
    grind
  · intro b' hb' i
    obtain ⟨b, hb, rfl⟩ := Option.map_eq_some_iff.mp (hplayer ▸ hb')
    have hold := h.stats b hb i
    have hchange := hstats b i
    grind
  · rw [hspeed, h.speed, hdelta]

theorem Balanced.of_speed {c' : Creature} {l' : List Active} (h : c.Balanced l)
    (hplayer : c'.getPlayer = c.getPlayer)
    (hskills : ∀ i : Fin 13, total (·.skill i) l' = total (·.skill i) l)
    (hstats : ∀ i : Fin 5, total (·.stat i) l' = total (·.stat i) l)
    (hspeed : c'.varSpeed - c.varSpeed = total (·.speedDelta) l' - total (·.speedDelta) l) :
    c'.Balanced l' := by
  constructor
  · intro b hb i
    rw [hskills, h.skills b (hplayer ▸ hb) i]
  · intro b hb i
    rw [hstats, h.stats b (hplayer ▸ hb) i]
  · have hold := h.speed
    grind

theorem Balanced.endCondition (h : c.Balanced (before ++ a :: after)) :
    (c.endCondition a).Balanced (before ++ after) := by
  cases heffect : a.effect with
  | attributes s =>
    have hplayer : (c.endCondition a).getPlayer = c.getPlayer.map (·.revert s) := by
      simp only [Creature.endCondition, heffect]
      split <;> simp
    have hspeed : (c.endCondition a).varSpeed = c.varSpeed := by
      simp only [Creature.endCondition, heffect]
      split <;> simp
    refine h.of_attributes hplayer hspeed ?_ ?_ ?_
    · intro b i
      simp [Bonus.revert, total_middle, Active.skill_attributes heffect]
      grind
    · intro b i
      simp [Bonus.revert, total_middle, Active.stat_attributes heffect]
      grind
    · simp [total_middle, Active.speedDelta_attributes heffect]
  | speed type s =>
    have hend : c.endCondition a = c.changeSpeed (-s.speedDelta) := by
      simp only [Creature.endCondition, heffect]
    refine h.of_speed ?_ ?_ ?_ ?_
    · rw [hend, changeSpeed_getPlayer]
    · intro i
      simp [total_middle, Active.skill_speed heffect]
    · intro i
      simp [total_middle, Active.stat_speed heffect]
    · rw [hend, changeSpeed_varSpeed, total_middle, Active.speedDelta_speed heffect]
      grind

theorem Balanced.setUseDefense (h : c.Balanced l) (b : Bool) : (c.setUseDefense b).Balanced l :=
  ⟨h.skills, h.stats, h.speed⟩

theorem Balanced.update (h : c.Balanced (before ++ after)) {s : Attributes}
    (heffect : a.effect = .attributes s) :
    (c.updatePlayer (·.update s)).Balanced (before ++ a :: after) := by
  refine h.of_attributes (updatePlayer_getPlayer _) (updatePlayer_varSpeed _) ?_ ?_ ?_
  · intro b i
    simp [Bonus.update, total_middle, Active.skill_attributes heffect]
    grind
  · intro b i
    simp [Bonus.update, total_middle, Active.stat_attributes heffect]
    grind
  · simp [total_middle, Active.speedDelta_attributes heffect]

theorem Balanced.changeSpeed (h : c.Balanced (before ++ after)) {type : SpeedType} {s : Speed}
    (heffect : a.effect = .speed type s) :
    (c.changeSpeed s.speedDelta).Balanced (before ++ a :: after) := by
  refine h.of_speed rfl ?_ ?_ ?_
  · intro i
    simp [total_middle, Active.skill_speed heffect]
  · intro i
    simp [total_middle, Active.stat_speed heffect]
  · rw [changeSpeed_varSpeed, total_middle, Active.speedDelta_speed heffect]
    grind

theorem Balanced.startCondition (h : c.Balanced l) :
    (c.startCondition m a).1.Balanced (l ++ [(c.startCondition m a).2]) := by
  have hl : c.Balanced (l ++ []) := by rwa [List.append_nil]
  unfold Creature.startCondition
  extract_lets a
  split
  · exact (hl.setUseDefense _).update ‹_›
  · exact hl.changeSpeed rfl

theorem Balanced.refreshCondition (h : c.Balanced (before ++ prev :: after)) :
    (c.refreshCondition m prev a).1.Balanced
      (before ++ (c.refreshCondition m prev a).2 :: after) := by
  unfold Creature.refreshCondition
  split
  · split
    · exact h.endCondition.update rfl
    · exact h
  · rename_i type old newType new hprev hnew
    split
    · exact h
    split
    · exact h
    extract_lets s newSpeedChange
    have hspeed : (if newSpeedChange ≠ 0 then c.changeSpeed newSpeedChange else c).varSpeed =
        c.varSpeed + newSpeedChange := by
      split
      · exact changeSpeed_varSpeed _
      · grind
    refine h.of_speed ?_ ?_ ?_ ?_
    · split <;> rfl
    · intro i
      simp [total_middle, Active.skill, hprev]
    · intro i
      simp [total_middle, Active.stat, hprev]
    · rw [hspeed, total_middle, total_middle, Active.speedDelta_speed hprev]
      simp only [Active.speedDelta, newSpeedChange]
      grind
  · exact h

/-! ## The loops -/

@[simp] theorem endCondition_conditions : (c.endCondition a).conditions = c.conditions := by
  unfold endCondition
  split
  · dsimp only
    split <;> simp
  · rfl

@[simp] theorem endCondition_canUseDefense :
    (c.endCondition a).canUseDefense = (c.canUseDefense || a.disablesDefense) := by
  unfold endCondition Active.disablesDefense
  split
  · dsimp only
    split <;> simp_all
  · simp

theorem Balanced.erase (h : c.Balanced (before ++ a :: after)) (l : List Active) :
    ({ c with conditions := l }.endCondition a).Balanced (before ++ after) :=
  have hl : ({ c with conditions := l } : Creature).Balanced (before ++ a :: after) :=
    ⟨h.skills, h.stats, h.speed⟩
  hl.endCondition

theorem removeLoop_balanced (force : Bool) (p : Active → Bool) (before after : List Active)
    (c : Creature) (hc : c.conditions = before ++ after) (h : c.Balanced c.conditions) :
    (c.removeLoop m force p before after).Balanced
      (c.removeLoop m force p before after).conditions := by
  induction after generalizing before c with
  | nil => exact h
  | cons a after ih =>
    unfold removeLoop
    split
    · exact ih (before ++ [a]) c (by simp [hc]) h
    split
    · exact h
    · have hend := (hc ▸ h).erase (before ++ after)
      exact ih before _ endCondition_conditions (by simpa using hend)

/-- Running down changes no effect. -/
theorem Balanced.executeCondition (h : c.Balanced (before ++ a :: after)) (interval : Int32) :
    c.Balanced (before ++ (a.executeCondition m interval).1 :: after) := by
  have heffect := a.executeCondition_effect m interval
  have hsame (f : Active → Int32) (hf : f (a.executeCondition m interval).1 = f a) :
      total f (before ++ (a.executeCondition m interval).1 :: after) =
        total f (before ++ a :: after) := by
    rw [total_middle, total_middle, hf]
  constructor
  · intro b hb i
    rw [hsame _ (by simp only [Active.skill, heffect]), h.skills b hb i]
  · intro b hb i
    rw [hsame _ (by simp only [Active.stat, heffect]), h.stats b hb i]
  · rw [hsame _ (by simp only [Active.speedDelta, heffect]), h.speed]

theorem executeLoop_balanced (interval : Int32) (before after : List Active) (c : Creature)
    (hc : c.conditions = before ++ after) (h : c.Balanced c.conditions) :
    (c.executeLoop m interval before after).Balanced
      (c.executeLoop m interval before after).conditions := by
  induction after generalizing before c with
  | nil => exact h
  | cons a after ih =>
    have hrun := (hc ▸ h).executeCondition (m := m) interval
    simp only [executeLoop]
    split
    · exact ih before _ endCondition_conditions (by simpa using hrun.erase (before ++ after))
    · exact ih _ _ (by simp) ⟨hrun.skills, hrun.stats, hrun.speed⟩

theorem removeCondition_balanced (h : c.Balanced c.conditions) (type : ConditionType)
    (force : Bool) :
    (c.removeCondition m type force).Balanced (c.removeCondition m type force).conditions :=
  removeLoop_balanced force _ [] c.conditions c rfl h

theorem onAddCondition_balanced (h : c.Balanced c.conditions) (type : ConditionType) :
    (c.onAddCondition m type).Balanced (c.onAddCondition m type).conditions := by
  unfold onAddCondition
  split
  · exact h
  split
  · exact removeCondition_balanced h _ _
  split
  · exact removeCondition_balanced h _ _
  · exact h

theorem addCondition_balanced (h : c.Balanced c.conditions) (force : Bool) :
    (c.addCondition m a force).Balanced (c.addCondition m a force).conditions := by
  unfold addCondition
  split
  · exact h
  split
  · rename_i i _
    have hsplit : c.conditions =
        c.conditions.take i ++ c.conditions[i] :: c.conditions.drop (i + 1) := by simp
    have hrefresh := (hsplit ▸ h).refreshCondition (m := m) (a := a)
    have hset : c.conditions.set i (c.refreshCondition m c.conditions[i] a).2 =
        c.conditions.take i ++ (c.refreshCondition m c.conditions[i] a).2 ::
          c.conditions.drop (i + 1) := by
      rw [List.set_eq_take_append_cons_drop, if_pos i.isLt]
    rw [← hset] at hrefresh
    exact ⟨hrefresh.skills, hrefresh.stats, hrefresh.speed⟩
  · have hstart := h.startCondition (m := m) (a := a)
    exact onAddCondition_balanced ⟨hstart.skills, hstart.stats, hstart.speed⟩ _

theorem removeConditionAt_balanced (h : c.Balanced c.conditions) (i : ℕ) (force : Bool) :
    (c.removeConditionAt m i force).Balanced (c.removeConditionAt m i force).conditions := by
  unfold removeConditionAt
  split
  · exact h
  rename_i a ha
  split
  · exact h
  obtain ⟨hi, rfl⟩ := List.getElem?_eq_some_iff.mp ha
  have hsplit : c.conditions =
      c.conditions.take i ++ c.conditions[i] :: c.conditions.drop (i + 1) := by simp
  rw [endCondition_conditions, List.eraseIdx_eq_take_drop_succ]
  exact (hsplit ▸ h).erase _

/-- The counters are right after every action, whatever it is. -/
theorem step_balanced (h : c.Balanced c.conditions) (x : Moment × Action) :
    (c.step x).Balanced (c.step x).conditions := by
  obtain ⟨m, action⟩ := x
  cases action with
  | addCondition a force => exact addCondition_balanced h force
  | removeCondition type force => exact removeCondition_balanced h type force
  | removeConditionById type id force => exact removeLoop_balanced force _ [] c.conditions c rfl h
  | removeConditionAt i force => exact removeConditionAt_balanced h i force
  | executeConditions interval => exact executeLoop_balanced _ [] c.conditions c rfl h

/-! ## The defence -/

/-- Of the conditions that disable the defence, all are chosen or none is. -/
def EndsAllOrNone (l : List Active) (ends : Active → Bool) : Prop :=
  (∃ a ∈ l, ends a ∧ a.disablesDefense) → ∀ a ∈ l, a.disablesDefense → ends a

/-- What an action has to find to leave the flag of the defence right. -/
def FlagSafe (c : Creature) : Moment × Action → Prop
  | (m, .addCondition a force) =>
    c.postpones m force a = false →
    match c.getCondition a.conditionType a.id a.subId with
    | some i =>
      c.conditions[i].updateCondition m a →
        if c.conditions[i].disablesDefense then
          ¬ a.disablesDefense ∧ ∀ b ∈ c.conditions.eraseIdx i, ¬ b.disablesDefense
        else a.disablesDefense → ∃ b ∈ c.conditions.eraseIdx i, b.disablesDefense
    | none =>
      a.conditionType = CONDITION_ATTRIBUTES →
        a.disablesDefense ∨ ∀ b ∈ c.conditions, ¬ b.disablesDefense
  | (_, .removeCondition _ _) => True
  | (_, .removeConditionById type id _) =>
    EndsAllOrNone c.conditions fun a => a.conditionType = type && a.id = id
  | (_, .removeConditionAt i _) =>
    ∀ a, c.conditions[i]? = some a → a.disablesDefense →
      ∀ b ∈ c.conditions.eraseIdx i, ¬ b.disablesDefense
  | (m, .executeConditions _) => EndsAllOrNone c.conditions (·.expired m)

/-- The flag is right. -/
def FlagRight (c : Creature) : Prop :=
  c.canUseDefense = !c.conditions.any (·.disablesDefense)

theorem accounted_iff (h : c.Balanced c.conditions) : c.Accounted ↔ c.FlagRight := by
  have hflag : (c.canUseDefense = false ↔ ∃ a ∈ c.conditions, a.disablesDefense) ↔
      c.FlagRight := by
    unfold FlagRight
    rw [← List.any_eq_true]
    cases c.canUseDefense <;> simp
  exact ⟨fun hc => hflag.mp hc.defense, fun hc => ⟨h, hflag.mpr hc⟩⟩

theorem endsAllOrNone_iff (ends : Active → Bool) : EndsAllOrNone l ends ↔
    ((l.any fun a => ends a && a.disablesDefense) = true →
      (l.any fun a => !ends a && a.disablesDefense) = false) := by
  simp only [EndsAllOrNone, List.any_eq_true, Bool.and_eq_true, List.any_eq_false,
    Bool.not_eq_true', not_and, Bool.not_eq_true]
  refine imp_congr_right fun _ => forall₂_congr fun a _ => ?_
  cases ends a <;> simp

theorem any_disablesDefense_split (l : List Active) (ends : Active → Bool) :
    l.any (·.disablesDefense) = ((l.any fun a => ends a && a.disablesDefense) ||
      l.any fun a => !ends a && a.disablesDefense) := by
  induction l with
  | nil => rfl
  | cons a l ih =>
    simp only [List.any_cons, ih]
    cases ends a <;> cases a.disablesDefense <;> simp

/-- What ends sets the flag, what stays decides it. -/
theorem flag_ends_iff (ends : Active → Bool) (h : c.FlagRight) :
    (c.canUseDefense || c.conditions.any fun a => ends a && a.disablesDefense) =
        (!c.conditions.any fun a => !ends a && a.disablesDefense) ↔
      EndsAllOrNone c.conditions ends := by
  rw [h, any_disablesDefense_split _ ends, endsAllOrNone_iff]
  cases c.conditions.any fun a => ends a && a.disablesDefense <;>
    cases c.conditions.any fun a => !ends a && a.disablesDefense <;> simp

theorem removeLoop_flag (force : Bool) (p : Active → Bool) (type : ConditionType)
    (before after : List Active) (c : Creature) (hc : c.conditions = before ++ after)
    (hp : ∀ a ∈ after, p a → a.conditionType = type) :
    (c.removeLoop m force p before after).canUseDefense =
        (c.canUseDefense || after.any fun a => p a && a.disablesDefense) ∧
      (c.removeLoop m force p before after).conditions.any (·.disablesDefense) =
        (before.any (·.disablesDefense) || after.any fun a => !p a && a.disablesDefense) := by
  induction after generalizing before c with
  | nil => simp [removeLoop, hc]
  | cons a after ih =>
    have hp' : ∀ b ∈ after, p b → b.conditionType = type :=
      fun b hb => hp b (List.mem_cons_of_mem _ hb)
    unfold removeLoop
    split
    · rename_i hpa
      obtain ⟨hflag, hany⟩ := ih (before ++ [a]) c (by simp [hc]) hp'
      rw [hflag, hany]
      simp_all [Bool.or_assoc]
    split
    · rename_i hpa hwait
      -- the loop stops at a paralysis, and so does not end what comes after
      have htype : type = CONDITION_PARALYZE := by
        have := hp a List.mem_cons_self (by simpa using hpa)
        simp_all
      have hnone : ((a :: after).any fun b => p b && b.disablesDefense) = false := by
        simp only [List.any_eq_false, Bool.and_eq_true, not_and]
        intro b hb hpb hdisables
        have hattr := Active.conditionType_of_disablesDefense hdisables
        rw [hp b hb hpb, htype] at hattr
        exact absurd hattr (by decide)
      rw [hc, List.any_append, any_disablesDefense_split (a :: after) p, hnone]
      simp
    · obtain ⟨hflag, hany⟩ := ih before
        ({ c with conditions := before ++ after }.endCondition a) endCondition_conditions hp'
      rw [hflag, hany]
      simp_all [Bool.or_assoc]

theorem executeLoop_flag (interval : Int32) (before after : List Active) (c : Creature)
    (hc : c.conditions = before ++ after) :
    (c.executeLoop m interval before after).canUseDefense =
        (c.canUseDefense || after.any fun a => a.expired m && a.disablesDefense) ∧
      (c.executeLoop m interval before after).conditions.any (·.disablesDefense) =
        (before.any (·.disablesDefense) ||
          after.any fun a => !a.expired m && a.disablesDefense) := by
  induction after generalizing before c with
  | nil => simp [executeLoop, hc]
  | cons a after ih =>
    have hdisables := a.executeCondition_disablesDefense m interval
    simp only [executeLoop, a.executeCondition_goesOn]
    split
    · obtain ⟨hflag, hany⟩ := ih before ({ c with conditions := before ++ after }.endCondition
        (a.executeCondition m interval).1) endCondition_conditions
      rw [hflag, hany]
      simp_all [Bool.or_assoc]
    · obtain ⟨hflag, hany⟩ := ih (before ++ [(a.executeCondition m interval).1])
        { c with conditions := before ++ (a.executeCondition m interval).1 :: after } (by simp)
      rw [hflag, hany]
      simp_all [Bool.or_assoc]

/-- The conditions of one type either all disable the defence or none does. -/
theorem removeCondition_flag (h : c.FlagRight) (type : ConditionType) (force : Bool) :
    (c.removeCondition m type force).FlagRight := by
  have hp : ∀ a ∈ c.conditions, decide (a.conditionType = type) = true → a.conditionType = type :=
    fun a _ ha => of_decide_eq_true ha
  obtain ⟨hflag, hany⟩ := removeLoop_flag (m := m) force (fun a => a.conditionType = type) type
    [] c.conditions c rfl hp
  have hends : EndsAllOrNone c.conditions fun a => a.conditionType = type := by
    rintro ⟨a, -, ha, hdisables⟩ b - hb
    have htype := Active.conditionType_of_disablesDefense hdisables
    rw [of_decide_eq_true ha] at htype
    exact decide_eq_true ((Active.conditionType_of_disablesDefense hb).trans htype.symm)
  unfold FlagRight removeCondition
  rw [hflag, hany, List.any_nil, Bool.false_or]
  exact (flag_ends_iff _ h).mpr hends

theorem removeConditionById_flag_iff (h : c.FlagRight) (type : ConditionType) (id : ConditionId)
    (force : Bool) : (c.removeConditionById m type id force).FlagRight ↔
      EndsAllOrNone c.conditions fun a => a.conditionType = type && a.id = id := by
  have hp : ∀ a ∈ c.conditions, (decide (a.conditionType = type) && decide (a.id = id)) = true →
      a.conditionType = type :=
    fun a _ ha => of_decide_eq_true (Bool.and_eq_true _ _ ▸ ha).1
  obtain ⟨hflag, hany⟩ := removeLoop_flag (m := m) force
    (fun a => a.conditionType = type && a.id = id) type [] c.conditions c rfl hp
  unfold FlagRight removeConditionById
  rw [hflag, hany, List.any_nil, Bool.false_or]
  exact flag_ends_iff _ h

theorem executeConditions_flag_iff (h : c.FlagRight) (interval : UInt32) :
    (c.executeConditions m interval).FlagRight ↔
      EndsAllOrNone c.conditions (·.expired m) := by
  obtain ⟨hflag, hany⟩ := executeLoop_flag (m := m) interval.toInt32 [] c.conditions c rfl
  unfold FlagRight executeConditions
  rw [hflag, hany, List.any_nil, Bool.false_or]
  exact flag_ends_iff _ h

theorem any_disablesDefense_middle : (before ++ a :: after).any (·.disablesDefense) =
    (a.disablesDefense || (before ++ after).any (·.disablesDefense)) := by
  simp [Bool.or_left_comm]

theorem any_disablesDefense_set {i : ℕ} (hi : i < l.length) (b : Active) :
    (l.set i b).any (·.disablesDefense) =
      (b.disablesDefense || (l.eraseIdx i).any (·.disablesDefense)) := by
  rw [List.set_eq_take_append_cons_drop, if_pos hi, any_disablesDefense_middle,
    List.eraseIdx_eq_take_drop_succ]

theorem any_disablesDefense_eraseIdx {i : ℕ} (hi : i < l.length) : l.any (·.disablesDefense) =
    (l[i].disablesDefense || (l.eraseIdx i).any (·.disablesDefense)) := by
  rw [← any_disablesDefense_set hi, List.set_getElem_self]

theorem removeConditionAt_flag_iff (h : c.FlagRight) (i : ℕ) (force : Bool) :
    (c.removeConditionAt m i force).FlagRight ↔
      ∀ a, c.conditions[i]? = some a → a.disablesDefense →
        ∀ b ∈ c.conditions.eraseIdx i, ¬ b.disablesDefense := by
  unfold removeConditionAt
  split
  · simp [*]
  rename_i a ha
  simp only [ha, Option.some.injEq, forall_eq']
  split
  · rename_i hwait
    have hnot : ¬ a.disablesDefense := by
      intro hdisables
      have hattr := Active.conditionType_of_disablesDefense hdisables
      simp [hattr, attributes_ne_paralyze] at hwait
    simp [h, hnot]
  obtain ⟨hi, rfl⟩ := List.getElem?_eq_some_iff.mp ha
  unfold FlagRight
  rw [endCondition_canUseDefense, endCondition_conditions]
  simp only [← List.any_eq_false]
  rw [h, any_disablesDefense_eraseIdx hi]
  cases c.conditions[i].disablesDefense <;>
    cases (c.conditions.eraseIdx i).any (·.disablesDefense) <;> simp

/-- A refresh swaps the values but only ever switches the defence on. -/
theorem refreshCondition_flag (c : Creature) (m : Moment) (prev a : Active)
    (htype : prev.conditionType = a.conditionType) :
    (c.refreshCondition m prev a).1.canUseDefense =
        (c.canUseDefense || (prev.updateCondition m a && prev.disablesDefense)) ∧
      (c.refreshCondition m prev a).2.disablesDefense =
        if prev.updateCondition m a then a.disablesDefense else prev.disablesDefense := by
  unfold refreshCondition
  split
  · rename_i old new hprev hnew
    split
    · rename_i hupdate
      simp [hupdate, Active.disablesDefense, hnew]
    · rename_i hupdate
      simp [hupdate]
  · rename_i type old newType new hprev hnew
    have hd : prev.disablesDefense = false := by simp only [Active.disablesDefense, hprev]
    have hd' : a.disablesDefense = false := by simp only [Active.disablesDefense, hnew]
    have hs (p : Active) (s : Speed) :
        ({ p with effect := .speed type s } : Active).disablesDefense = false := rfl
    split
    · simp [hd, hd']
    split
    · simp [hd, hd']
    dsimp only
    split <;> simp [hd, hd', hs]
  · rename_i hattr hspeed
    exfalso
    cases hprev : prev.effect with
    | attributes old =>
      cases hnew : a.effect with
      | attributes new => exact hattr _ _ hprev hnew
      | speed type new =>
        exact Active.conditionType_speed hnew
          (htype ▸ Active.conditionType_attributes hprev)
    | speed type old =>
      cases hnew : a.effect with
      | attributes new =>
        exact Active.conditionType_speed hprev
          (htype.trans (Active.conditionType_attributes hnew))
      | speed newType new => exact hspeed _ _ _ _ hprev hnew

theorem startCondition_flag (c : Creature) (m : Moment) (a : Active) :
    (c.startCondition m a).1.canUseDefense =
        (if a.conditionType = CONDITION_ATTRIBUTES then !a.disablesDefense
          else c.canUseDefense) ∧
      (c.startCondition m a).2.disablesDefense = a.disablesDefense := by
  have heffect : (if 0 < a.ticks then { a with endTime := a.ticks.toInt + m.now } else a).effect =
      a.effect := by
    split <;> rfl
  unfold startCondition
  extract_lets a'
  split
  · rename_i s hs
    have ha : a.effect = .attributes s := heffect ▸ hs
    simp [Active.disablesDefense, Active.conditionType, ha, hs]
  · rename_i type s hs
    have ha : a.effect = .speed type s := heffect ▸ hs
    have htype := Active.conditionType_speed ha
    simp [Active.disablesDefense, ha, htype]

theorem onAddCondition_flag (h : c.FlagRight) (type : ConditionType) :
    (c.onAddCondition m type).FlagRight := by
  unfold onAddCondition
  split
  · exact h
  split
  · exact removeCondition_flag h _ _
  split
  · exact removeCondition_flag h _ _
  · exact h

theorem onAddCondition_attributes :
    c.onAddCondition m CONDITION_ATTRIBUTES = c := by
  unfold onAddCondition
  split <;> simp [attributes_ne_paralyze, attributes_ne_haste]

theorem refreshed_flag_iff (h : c.FlagRight) {i : Fin c.conditions.length}
    (htype : c.conditions[i].conditionType = a.conditionType) :
    ({ (c.refreshCondition m c.conditions[i] a).1 with
        conditions := c.conditions.set i (c.refreshCondition m c.conditions[i] a).2 } :
      Creature).FlagRight ↔
      (c.conditions[i].updateCondition m a →
        if c.conditions[i].disablesDefense then
          ¬ a.disablesDefense ∧ ∀ b ∈ c.conditions.eraseIdx i, ¬ b.disablesDefense
        else a.disablesDefense → ∃ b ∈ c.conditions.eraseIdx i, b.disablesDefense) := by
  obtain ⟨hflag, hdisables⟩ := refreshCondition_flag c m c.conditions[i] a htype
  have hany := any_disablesDefense_eraseIdx i.isLt
  unfold FlagRight
  dsimp only
  simp only [← List.any_eq_true, ← List.any_eq_false]
  rw [any_disablesDefense_set i.isLt, hflag, hdisables, h, hany]
  simp only [Fin.getElem_fin]
  cases c.conditions[i.val].updateCondition m a <;> cases c.conditions[i.val].disablesDefense <;>
    cases a.disablesDefense <;>
    cases (c.conditions.eraseIdx i).any (·.disablesDefense) <;> simp

theorem started_flag_iff (h : c.FlagRight) :
    ({ (c.startCondition m a).1 with
        conditions := c.conditions ++ [(c.startCondition m a).2] } : Creature).FlagRight ↔
      (a.conditionType = CONDITION_ATTRIBUTES →
        a.disablesDefense ∨ ∀ b ∈ c.conditions, ¬ b.disablesDefense) := by
  obtain ⟨hflag, hdisables⟩ := startCondition_flag c m a
  unfold FlagRight
  simp only [List.any_append, List.any_cons, List.any_nil, Bool.or_false]
  simp only [← List.any_eq_false]
  rw [hflag, hdisables, h]
  by_cases htype : a.conditionType = CONDITION_ATTRIBUTES
  · simp only [htype, ↓reduceIte, forall_const]
    cases a.disablesDefense <;> cases c.conditions.any (·.disablesDefense) <;> simp
  · have hd : a.disablesDefense = false := by
      by_contra hd
      exact htype (Active.conditionType_of_disablesDefense (Bool.not_eq_false _ ▸ hd))
    simp [htype, hd]

theorem addCondition_flag_iff (h : c.FlagRight) (a : Active) (force : Bool) :
    (c.addCondition m a force).FlagRight ↔ c.FlagSafe (m, .addCondition a force) := by
  unfold addCondition FlagSafe
  dsimp only
  cases hwait : c.postpones m force a with
  | true => simp [h]
  | false =>
    simp only [Bool.false_eq_true, ↓reduceIte, forall_const]
    cases hi : c.getCondition a.conditionType a.id a.subId with
    | some i =>
      have htype : c.conditions[i].conditionType = a.conditionType := by
        have := (List.findFinIdx?_eq_some_iff.mp hi).1
        simp_all
      exact refreshed_flag_iff h htype
    | none =>
      have hstart := started_flag_iff (m := m) (a := a) h
      by_cases htype : a.conditionType = CONDITION_ATTRIBUTES
      · simpa only [htype, onAddCondition_attributes] using hstart
      · have hsafe := hstart.mpr fun h => absurd h htype
        simp [htype, onAddCondition_flag hsafe]

theorem step_flag_iff (h : c.FlagRight) (x : Moment × Action) :
    (c.step x).FlagRight ↔ c.FlagSafe x := by
  obtain ⟨m, action⟩ := x
  cases action with
  | addCondition a force => exact addCondition_flag_iff h a force
  | removeCondition type force => exact iff_of_true (removeCondition_flag h type force) trivial
  | removeConditionById type id force => exact removeConditionById_flag_iff h type id force
  | removeConditionAt i force => exact removeConditionAt_flag_iff h i force
  | executeConditions interval => exact executeConditions_flag_iff h interval

/-- Along a run the creature holds exactly the effects of its active conditions, exactly if every
action leaves the flag of the defence to the conditions that stay. -/
theorem accounted_run_iff {actions : List (Moment × Action)} (h : c.Accounted) :
    (∀ n, ((actions.take n).foldl step c).Accounted) ↔ Run.Steps step FlagSafe c actions := by
  refine Run.forall_take_iff (I := fun c => c.Balanced c.conditions)
    (fun c x hc _ => step_balanced hc x) ?_ h.toBalanced h
  intro c x hc haccounted
  rw [accounted_iff (step_balanced hc x)]
  exact step_flag_iff ((accounted_iff hc).mp haccounted) x

theorem accounted_of_no_conditions (h : c.Balanced []) (hconditions : c.conditions = [])
    (hdefense : c.canUseDefense = true) : c.Accounted := by
  refine (accounted_iff (hconditions ▸ h)).mpr ?_
  simp [FlagRight, hconditions, hdefense]

/-- A player without conditions. -/
def newcomer : Creature := { kind := .player {} }

/-- Fury: ten seconds of sword fighting without a defence. -/
def fury : Active :=
  { id := CONDITIONID_COMBAT, subId := 1, ticks := 10000,
    effect := .attributes { skills := (Vector.replicate 13 0).set 2 20, disableDefense := true } }

/-- A charm that adds to the shield for half a minute. -/
def charm : Active :=
  { id := CONDITIONID_COMBAT, subId := 2, ticks := 30000,
    effect := .attributes { skills := (Vector.replicate 13 0).set 5 10 } }

def haste : Active :=
  { id := CONDITIONID_COMBAT, ticks := 22000, effect := .speed .haste { speedDelta := 66 } }

theorem newcomer_accounted : newcomer.Accounted := by
  refine accounted_of_no_conditions ⟨?_, ?_, rfl⟩ rfl rfl
  · rintro b ⟨⟩ i
    revert i
    decide
  · rintro b ⟨⟩ i
    revert i
    decide

theorem accounted_run_newcomer :
    (∀ n, (([({ now := 0 }, .addCondition charm false), ({ now := 0 }, .addCondition haste false),
        ({ now := 1000 }, .addCondition fury false)].take n).foldl step newcomer).Accounted) ↔
      Run.Steps step FlagSafe newcomer
        [({ now := 0 }, .addCondition charm false), ({ now := 0 }, .addCondition haste false),
          ({ now := 1000 }, .addCondition fury false)] :=
  accounted_run_iff newcomer_accounted

/-- The charm gives back the defence that the fury has taken. -/
theorem charm_restores_defense :
    let c := [({ now := 0 }, Action.addCondition fury false),
      ({ now := 1000 }, .addCondition charm false)].foldl step newcomer
    newcomer.Accounted ∧ c.canUseDefense = true ∧ ¬ c.Accounted := by
  refine ⟨newcomer_accounted, rfl, fun h => ?_⟩
  have hoff := h.defense.mpr ⟨{ fury with endTime := 10000 }, by decide, rfl⟩
  exact absurd hoff (by decide)

end Creature

end OTServBR.Condition
