import Mathlib.Data.Vector.Defs
import OTServBR.Lib.Bounded

/-! # Conditions

A condition has an identity (type, id and sub id), a time to last, and what its
class adds to that. `createCondition` picks the class by the type.
-/

namespace OTServBR

/-- `ConditionType_t`, flags of one bit each. -/
structure ConditionType where
  bits : UInt32
  deriving DecidableEq, Repr

def ConditionType.flag (n : UInt32) : ConditionType := ⟨1 <<< n⟩

def CONDITION_POISON : ConditionType := .flag 0
def CONDITION_FIRE : ConditionType := .flag 1
def CONDITION_ENERGY : ConditionType := .flag 2
def CONDITION_BLEEDING : ConditionType := .flag 3
def CONDITION_HASTE : ConditionType := .flag 4
def CONDITION_PARALYZE : ConditionType := .flag 5
def CONDITION_OUTFIT : ConditionType := .flag 6
def CONDITION_INVISIBLE : ConditionType := .flag 7
def CONDITION_LIGHT : ConditionType := .flag 8
def CONDITION_MANASHIELD : ConditionType := .flag 9
def CONDITION_INFIGHT : ConditionType := .flag 10
def CONDITION_DRUNK : ConditionType := .flag 11
def CONDITION_EXHAUST : ConditionType := .flag 12
def CONDITION_REGENERATION : ConditionType := .flag 13
def CONDITION_SOUL : ConditionType := .flag 14
def CONDITION_DROWN : ConditionType := .flag 15
def CONDITION_MUTED : ConditionType := .flag 16
def CONDITION_CHANNELMUTEDTICKS : ConditionType := .flag 17
def CONDITION_YELLTICKS : ConditionType := .flag 18
def CONDITION_ATTRIBUTES : ConditionType := .flag 19
def CONDITION_FREEZING : ConditionType := .flag 20
def CONDITION_DAZZLED : ConditionType := .flag 21
def CONDITION_CURSED : ConditionType := .flag 22
def CONDITION_EXHAUST_COMBAT : ConditionType := .flag 23
def CONDITION_EXHAUST_HEAL : ConditionType := .flag 24
def CONDITION_PACIFIED : ConditionType := .flag 25
def CONDITION_SPELLCOOLDOWN : ConditionType := .flag 26
def CONDITION_SPELLGROUPCOOLDOWN : ConditionType := .flag 27

/-- `ConditionId_t` -/
abbrev ConditionId := Int8

def CONDITIONID_DEFAULT : ConditionId := -1
def CONDITIONID_COMBAT : ConditionId := 0

structure IntervalInfo where
  timeLeft : Int32
  value : Int32
  interval : Int32
  deriving DecidableEq, Repr

/-- `Outfit_t`, with the byte that fills the object up to its alignment. -/
structure Outfit where
  lookType : UInt16 := 0
  lookTypeEx : UInt16 := 0
  lookMount : UInt16 := 0
  lookHead : UInt8 := 0
  lookBody : UInt8 := 0
  lookLegs : UInt8 := 0
  lookFeet : UInt8 := 0
  lookAddons : UInt8 := 0
  padding : UInt8 := 0
  deriving DecidableEq, Repr

structure LightInfo where
  level : UInt8 := 0
  color : UInt8 := 0
  deriving DecidableEq, Repr

namespace Condition

/-- `ConditionAttributes`, a value for each skill and each stat. -/
structure Attributes where
  skills : Vector Int32 13 := .replicate 13 0
  stats : Vector Int32 5 := .replicate 5 0
  currentSkill : ℕ := 0
  currentStat : ℕ := 0
  disableDefense : Bool := false
  deriving DecidableEq, Repr

/-- `ConditionRegeneration` -/
structure Regeneration where
  healthTicks : UInt32 := 1000
  manaTicks : UInt32 := 1000
  healthGain : UInt32 := 0
  manaGain : UInt32 := 0
  deriving DecidableEq, Repr

/-- `ConditionSoul` -/
structure Soul where
  soulTicks : UInt32 := 0
  soulGain : UInt32 := 0
  deriving DecidableEq, Repr

/-- `ConditionDamage` -/
structure Damage where
  delayed : Bool := false
  periodDamage : Int32 := 0
  damageList : List IntervalInfo := []
  deriving DecidableEq, Repr

/-- `ConditionSpeed`; the formula keeps the bits of its `float` variables. -/
structure Speed where
  speedDelta : Int32
  mina : UInt32 := 0
  minb : UInt32 := 0
  maxa : UInt32 := 0
  maxb : UInt32 := 0
  deriving DecidableEq, Repr

/-- `ConditionLight` -/
structure Light where
  lightInfo : LightInfo
  internalLightTicks : UInt32 := 0
  lightChangeInterval : UInt32 := 0
  deriving DecidableEq, Repr

/-- The class of a condition with the members it adds. -/
inductive Payload
  | generic
  | attributes (a : Attributes)
  | regeneration (r : Regeneration)
  | soul (s : Soul)
  | invisible
  | damage (d : Damage)
  | speed (s : Speed)
  | outfit (o : Outfit)
  | light (l : Light)
  | spellCooldown
  | spellGroupCooldown
  deriving DecidableEq, Repr

end Condition

structure Condition where
  conditionType : ConditionType
  id : ConditionId
  ticks : Int32
  isBuff : Bool := false
  subId : UInt32 := 0
  payload : Condition.Payload
  deriving DecidableEq, Repr

namespace Condition

/-- The class of a type; `param` is the speed or the light. -/
def newPayload (type : ConditionType) (param : Int32) : Option Payload :=
  if type ∈ [CONDITION_POISON, CONDITION_FIRE, CONDITION_ENERGY, CONDITION_DROWN,
      CONDITION_FREEZING, CONDITION_DAZZLED, CONDITION_CURSED, CONDITION_BLEEDING] then
    some (.damage {})
  else if type ∈ [CONDITION_HASTE, CONDITION_PARALYZE] then some (.speed { speedDelta := param })
  else if type = CONDITION_INVISIBLE then some .invisible
  else if type = CONDITION_OUTFIT then some (.outfit {})
  else if type = CONDITION_LIGHT then
    let level := (param &&& 0xFF).toUInt32.toUInt8
    let color := ((param &&& 0xFF00) >>> 8).toUInt32.toUInt8
    some (.light { lightInfo := { level, color } })
  else if type = CONDITION_REGENERATION then some (.regeneration {})
  else if type = CONDITION_SOUL then some (.soul {})
  else if type = CONDITION_ATTRIBUTES then some (.attributes {})
  else if type = CONDITION_SPELLCOOLDOWN then some .spellCooldown
  else if type = CONDITION_SPELLGROUPCOOLDOWN then some .spellGroupCooldown
  else if type ∈ [CONDITION_INFIGHT, CONDITION_DRUNK, CONDITION_EXHAUST, CONDITION_EXHAUST_COMBAT,
      CONDITION_EXHAUST_HEAL, CONDITION_MUTED, CONDITION_CHANNELMUTEDTICKS, CONDITION_YELLTICKS,
      CONDITION_PACIFIED, CONDITION_MANASHIELD] then
    some .generic
  else none

/-- The constructor of a damage condition takes no ticks. -/
def initialTicks (payload : Payload) (ticks : Int32) : Int32 :=
  match payload with
  | .damage _ => 0
  | _ => ticks

def createCondition (id : ConditionId) (type : ConditionType) (ticks param : Int32) (buff : Bool)
    (subId : UInt32) : Option Condition :=
  (newPayload type param).map fun payload =>
    { conditionType := type, id, ticks := initialTicks payload ticks, isBuff := buff, subId,
      payload }

def isPersistent (c : Condition) : Bool :=
  c.ticks ≠ -1 && (c.id = CONDITIONID_DEFAULT || c.id = CONDITIONID_COMBAT)

end Condition

end OTServBR
