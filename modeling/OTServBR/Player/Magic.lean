import OTServBR.Player.Skills

/-! # The magic level and training

Mana that is spent trains the magic level as tries train a skill. Both can be
trained online and offline, and a death takes from both. The four loops that add
were written one by one.
-/

namespace OTServBR.Player

structure Magic where
  magLevel : UInt32 := 0
  manaSpent : UInt64 := 0
  magLevelPercent : UInt8 := 0
  deriving DecidableEq, Repr

namespace Magic

variable (req : UInt32 → UInt64)

def levelUp (m : Magic) : Magic := { m with magLevel := m.magLevel + 1, manaSpent := 0 }

/-- The loop of `addManaSpent`, with the rest of the amount and the requirements of the level it
ends at and of the one above; nothing of these if the function returns at the last level. -/
def advance (m : Magic) (amount currReqMana nextReqMana : UInt64) :
    Magic × Option (UInt64 × UInt64 × UInt64) :=
  if nextReqMana ≤ m.manaSpent + amount then
    if req (m.levelUp.magLevel + 1) ≤ nextReqMana then (m.levelUp, none)
    else
      advance m.levelUp (amount - (nextReqMana - m.manaSpent)) nextReqMana
        (req (m.levelUp.magLevel + 1))
  else (m, some (amount, currReqMana, nextReqMana))
termination_by 2 ^ 64 - nextReqMana.toNat
decreasing_by
  have hlt := UInt64.lt_iff_toNat_lt.mp (UInt64.not_le.mp ‹¬ req _ ≤ nextReqMana›)
  have hbound := (req (m.levelUp.magLevel + 1)).toNat_lt
  omega

/-- The event returns the mana that counts. -/
def addManaSpent (m : Magic) (notGainMana : Bool) (amount : UInt64)
    (onGainSkillTries : UInt64 → UInt64) : Magic :=
  if notGainMana then m
  else
    let currReqMana := req m.magLevel
    let nextReqMana := req (m.magLevel + 1)
    if nextReqMana ≤ currReqMana then m
    else
      let amount := onGainSkillTries amount
      if amount = 0 then m
      else
        match m.advance req amount currReqMana nextReqMana with
        | (m, none) => m
        | (m, some (amount, currReqMana, nextReqMana)) =>
          let m := { m with manaSpent := m.manaSpent + amount }
          let magLevelPercent :=
            if currReqMana < nextReqMana then getPercentLevel m.manaSpent nextReqMana else 0
          { m with magLevelPercent := magLevelPercent }

/-- The loop of `addOfflineTrainingTries` for the magic level. -/
def advanceOffline (m : Magic) (tries currReqMana nextReqMana : UInt64) :
    Magic × UInt64 × UInt64 × UInt64 :=
  if nextReqMana ≤ m.manaSpent + tries then
    if req (m.levelUp.magLevel + 1) ≤ nextReqMana then
      (m.levelUp, 0, nextReqMana, req (m.levelUp.magLevel + 1))
    else
      advanceOffline m.levelUp (tries - (nextReqMana - m.manaSpent)) nextReqMana
        (req (m.levelUp.magLevel + 1))
  else (m, tries, currReqMana, nextReqMana)
termination_by 2 ^ 64 - nextReqMana.toNat
decreasing_by
  have hlt := UInt64.lt_iff_toNat_lt.mp (UInt64.not_le.mp ‹¬ req _ ≤ nextReqMana›)
  have hbound := (req (m.levelUp.magLevel + 1)).toNat_lt
  omega

/-- `addOfflineTrainingTries` for the magic level. -/
def addOfflineTrainingTries (m : Magic) (tries : UInt64) (onGainSkillTries : UInt64 → UInt64) :
    Magic :=
  if tries = 0 then m
  else
    let currReqMana := req m.magLevel
    let nextReqMana := req (m.magLevel + 1)
    if nextReqMana ≤ currReqMana then m
    else
      let (m, tries, currReqMana, nextReqMana) :=
        m.advanceOffline req (onGainSkillTries tries) currReqMana nextReqMana
      let m := { m with manaSpent := m.manaSpent + tries }
      let newPercent :=
        if currReqMana < nextReqMana then getPercentLevel m.manaSpent nextReqMana else 0
      { m with magLevelPercent := newPercent }

/-- All the mana from magic level 1 on. -/
def sumMana (m : Magic) : UInt64 :=
  ((List.range' 1 m.magLevel.toNat).map fun i => req (.ofNat i)).sum + m.manaSpent

/-- The loop of `death`; it returns the rest of the loss. -/
def lose (m : Magic) (lostMana : UInt64) : Magic × UInt64 :=
  if m.manaSpent < lostMana ∧ 0 < m.magLevel then
    lose { m with manaSpent := req m.magLevel, magLevel := m.magLevel - 1 }
      (lostMana - m.manaSpent)
  else (m, lostMana)
termination_by m.magLevel.toNat
decreasing_by
  have hpos : (0 : UInt32).toNat < m.magLevel.toNat := UInt32.lt_iff_toNat_lt.mp (And.right ‹_›)
  change 0 < _ at hpos
  change (m.magLevel - 1).toNat < _
  rw [UInt32.toNat_sub_of_le _ _ (UInt32.le_iff_toNat_le.mpr (show 1 ≤ _ by omega))]
  change _ - 1 < _
  omega

/-- The loop of `death` and the mana that it leaves. -/
def loseMana (m : Magic) (lostMana : UInt64) : Magic :=
  let (m, lostMana) := m.lose req lostMana
  { m with manaSpent := m.manaSpent - lostMana }

/-- The part of `Player::death` that takes mana; `deathLoss` is the share that the death costs. -/
def death (m : Magic) (deathLoss : UInt64 → UInt64) : Magic :=
  let m := m.loseMana req (deathLoss (m.sumMana req))
  let nextReqMana := req (m.magLevel + 1)
  { m with
    magLevelPercent :=
      if req m.magLevel < nextReqMana then getPercentLevel m.manaSpent nextReqMana else 0 }

end Magic

namespace Skill

variable (req : UInt16 → UInt64)

/-- The loop of `addOfflineTrainingTries` for a skill. -/
def advanceOffline (s : Skill) (tries currReqTries nextReqTries : UInt64) :
    Skill × UInt64 × UInt64 × UInt64 :=
  if nextReqTries ≤ s.tries + tries then
    if req (s.levelUp.level + 1) ≤ nextReqTries then
      (s.levelUp, 0, nextReqTries, req (s.levelUp.level + 1))
    else
      advanceOffline s.levelUp (tries - (nextReqTries - s.tries)) nextReqTries
        (req (s.levelUp.level + 1))
  else (s, tries, currReqTries, nextReqTries)
termination_by 2 ^ 64 - nextReqTries.toNat
decreasing_by
  have hlt := UInt64.lt_iff_toNat_lt.mp (UInt64.not_le.mp ‹¬ req _ ≤ nextReqTries›)
  have hbound := (req (s.levelUp.level + 1)).toNat_lt
  omega

/-- `addOfflineTrainingTries` for a skill. -/
def addOfflineTrainingTries (s : Skill) (tries : UInt64) (onGainSkillTries : UInt64 → UInt64) :
    Skill :=
  if tries = 0 then s
  else
    let currReqTries := req s.level
    let nextReqTries := req (s.level + 1)
    if nextReqTries ≤ currReqTries then s
    else
      let (s, tries, currReqTries, nextReqTries) :=
        s.advanceOffline req (onGainSkillTries tries) currReqTries nextReqTries
      let s := { s with tries := s.tries + tries }
      let newPercent :=
        if currReqTries < nextReqTries then getPercentLevel s.tries nextReqTries else 0
      { s with percent := newPercent }

/-- A loss of tries as a number of 32 bits, if it fits into one. -/
def lostSkillTries (lost : ℕ) : Option UInt32 := if lost < 2 ^ 32 then some (.ofNat lost) else none

/-- The loop of `death` and the tries that it leaves. -/
def loseTries (s : Skill) (lost : UInt32) : Skill :=
  let (s, lostSkillTries) := s.lose req lost
  { s with tries := narrow (s.tries - lostSkillTries.toUInt64) }

/-- The percent is the last thing that a death changes. -/
theorem death_eq (s : Skill) (deathLoss : UInt64 → UInt32) :
    s.death req deathLoss =
      let s := s.loseTries req (deathLoss (s.sumSkillTries req))
      { s with percent := getPercentLevel s.tries (req s.level) } := rfl

end Skill

end OTServBR.Player
