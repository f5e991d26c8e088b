import Mathlib.Order.Monotone.Basic
import Mathlib.Tactic.LinearCombination
import Mathlib.Tactic.Ring
import OTServBR.Lib.Run
import OTServBR.Player.Basic

/-! # Level and experience

Gaining experience climbs levels in one loop, losing it, by command or by
death, descends them in another. The formula for the experience of a level
wraps around beyond a last level, where the gain stops.
-/

namespace OTServBR.Player

structure Vocation where
  id : UInt16
  gainHP : UInt32 := 5
  gainMana : UInt32 := 5
  gainCap : UInt32 := 500
  baseSpeed : UInt32 := 220
  deriving DecidableEq, Repr

/-- What a player gains and loses with levels. -/
structure Stats where
  vocation : Vocation
  level : UInt32 := 1
  levelPercent : UInt8 := 0
  experience : UInt64 := 0
  health : Int32 := 1000
  healthMax : Int32 := 1000
  mana : UInt32 := 0
  manaMax : UInt32 := 0
  capacity : UInt32 := 40000
  baseSpeed : UInt32 := 220
  /-- `PlayerFlag_SetMaxSpeed` -/
  setMaxSpeed : Bool := false
  deriving DecidableEq, Repr

def VOCATION_NONE : UInt16 := 0

def PLAYER_MAX_SPEED : UInt32 := 4500

def getExpForLevel (lv : Int32) : UInt64 :=
  let lv := (lv - 1).toInt64.toUInt64
  (50 * lv * lv * lv - 150 * lv * lv + 400 * lv) / 3

namespace Stats

/-- Experience of the own level. -/
abbrev currLevelExp (p : Stats) : UInt64 := getExpForLevel p.level.toInt32

/-- Experience of the level above. -/
abbrev nextLevelExp (p : Stats) : UInt64 := getExpForLevel (p.level + 1).toInt32

def updateBaseSpeed (p : Stats) : Stats :=
  { p with
    baseSpeed :=
      if p.setMaxSpeed then PLAYER_MAX_SPEED else p.vocation.baseSpeed + 2 * (p.level - 1) }

def setLevelPercent (p : Stats) (currLevelExp nextLevelExp : UInt64) : Stats :=
  { p with
    levelPercent :=
      if currLevelExp < nextLevelExp then
        getPercentLevel (p.experience - currLevelExp) (nextLevelExp - currLevelExp)
      else 0 }

def gainLevel (p : Stats) : Stats :=
  { p with
    level := p.level + 1
    healthMax := p.healthMax + p.vocation.gainHP.toInt32
    health := p.health + p.vocation.gainHP.toInt32
    manaMax := p.manaMax + p.vocation.gainMana
    mana := p.mana + p.vocation.gainMana
    capacity := p.capacity + p.vocation.gainCap }

/-- `std::max<int32_t>(0, n)` of an unsigned difference. -/
def clamp (n : UInt32) : Int32 := max 0 n.toInt32

def loseLevel (p : Stats) : Stats :=
  { p with
    level := p.level - 1
    healthMax := clamp (p.healthMax.toUInt32 - p.vocation.gainHP)
    manaMax := (clamp (p.manaMax - p.vocation.gainMana)).toUInt32
    capacity := (clamp (p.capacity - p.vocation.gainCap)).toUInt32 }

/-- The levels climbed, with the experience of the last one and of the one above. -/
def gainLevels (p : Stats) (currLevelExp nextLevelExp : UInt64) : Stats × UInt64 × UInt64 :=
  if nextLevelExp ≤ p.experience then
    -- the player has reached the last level
    if p.gainLevel.nextLevelExp ≤ nextLevelExp then
      (p.gainLevel, nextLevelExp, p.gainLevel.nextLevelExp)
    else gainLevels p.gainLevel nextLevelExp p.gainLevel.nextLevelExp
  else (p, currLevelExp, nextLevelExp)
termination_by 2 ^ 64 - nextLevelExp.toNat
decreasing_by
  have hlt := UInt64.lt_iff_toNat_lt.mp (UInt64.not_le.mp ‹_›)
  have hbound := p.gainLevel.nextLevelExp.toNat_lt
  omega

def loseLevels (p : Stats) (currLevelExp : UInt64) : Stats × UInt64 :=
  if 1 < p.level ∧ p.experience < currLevelExp then
    loseLevels p.loseLevel p.loseLevel.currLevelExp
  else (p, currLevelExp)
termination_by p.level.toNat
decreasing_by
  have hlt := UInt32.lt_iff_toNat_lt.mp (‹1 < p.level ∧ _›).1
  change (p.level - 1).toNat < _
  rw [UInt32.toNat_sub_of_le _ _ (UInt32.le_of_lt (‹1 < p.level ∧ _›).1)]
  change 1 < _ at hlt
  change _ - 1 < _
  omega

/-- A new level restores health and mana and sets the speed. -/
def refresh (p : Stats) (prevLevel : UInt32) : Stats :=
  if prevLevel = p.level then p
  else updateBaseSpeed { p with health := p.healthMax, mana := p.manaMax }

/-- The event returns the experience that is gained. -/
def addExperience (p : Stats) (exp : UInt64) (onGainExperience : UInt64 → UInt64) : Stats :=
  if p.nextLevelExp ≤ p.currLevelExp then { p with levelPercent := 0 }
  else
    let exp := onGainExperience exp
    if exp = 0 then p
    else
      let (q, currLevelExp, nextLevelExp) :=
        gainLevels { p with experience := p.experience + exp } p.currLevelExp p.nextLevelExp
      (q.refresh p.level).setLevelPercent currLevelExp nextLevelExp

/-- The event returns the experience that is lost. -/
def removeExperience (p : Stats) (exp : UInt64) (onLoseExperience : UInt64 → UInt64) : Stats :=
  if p.experience = 0 ∨ exp = 0 then p
  else
    let exp := onLoseExperience exp
    if exp = 0 then p
    else
      let experience := (max 0 (p.experience - exp).toInt64).toUInt64
      let (q, currLevelExp) := loseLevels { p with experience } p.currLevelExp
      (q.refresh p.level).setLevelPercent currLevelExp q.nextLevelExp

/-- The part of `Player::death` that takes experience; `expLoss` is the share that the death
costs, the event returns what is lost. -/
def death (p : Stats) (expLoss : UInt64) (onLoseExperience : UInt64 → UInt64) : Stats :=
  let expLoss := onLoseExperience expLoss
  if expLoss = 0 then p
  else
    let p :=
      if p.vocation.id = VOCATION_NONE ∨ 7 < p.level then
        { p with experience := p.experience - expLoss }
      else p
    let (q, currLevelExp) := loseLevels p p.currLevelExp
    q.setLevelPercent currLevelExp q.nextLevelExp

end Stats

/-- Experience between the level above `n` others and the next one. -/
def expStep (n : ℕ) : ℕ := 50 * (n * (n - 1)) + 100

/-- Experience of the level above `n` others, without wrapping. -/
def expAbove : ℕ → ℕ
  | 0 => 0
  | n + 1 => expAbove n + expStep n

theorem three_mul_expAbove (n : ℕ) :
    3 * expAbove n + 150 * n ^ 2 = 50 * n ^ 3 + 400 * n := by
  induction n with
  | zero => rfl
  | succ n ih =>
    have hstep : expStep n + 50 * n = 50 * n ^ 2 + 100 := by
      cases n with
      | zero => rfl
      | succ n =>
        simp only [expStep, Nat.add_sub_cancel]
        ring
    simp only [expAbove]
    linear_combination ih + 3 * hstep

theorem getExpForLevel_ofNat {n : ℕ} (hn : n < 2 ^ 31) :
    getExpForLevel (UInt32.ofNat (n + 1)).toInt32 = UInt64.ofNat (3 * expAbove n) / 3 := by
  have hlv : ((UInt32.ofNat (n + 1)).toInt32 - 1).toInt64.toUInt64 = UInt64.ofNat n := by
    have hpred : Int32.ofNat (n + 1) - 1 = Int32.ofNat n := by
      rw [Int32.ofNat_add]
      exact Int32.add_sub_cancel _ _
    rw [UInt32.toInt32_ofNat', hpred, Int32.toInt64_ofNat', Int64.toUInt64_ofNat']
    rw [Int32.toInt_maxValue]
    omega
  have hsum := congrArg UInt64.ofNat (three_mul_expAbove n)
  simp only [UInt64.ofNat_add, UInt64.ofNat_mul, pow_succ, pow_zero, one_mul] at hsum
  simp only [getExpForLevel, hlv]
  congr 1
  simp at hsum ⊢
  grind

/-- The last level: the formula wraps around for the next one. -/
def maxLevel : UInt32 := 717217

theorem expStep_lt {n : ℕ} (hn : n < 717217) : 100 * expStep n < 2 ^ 64 := by
  have hmul : n * (n - 1) ≤ 717217 * 717217 := Nat.mul_le_mul hn.le (by omega)
  simp only [expStep]
  omega

theorem expAbove_mono : Monotone expAbove :=
  monotone_nat_of_le_succ fun _ => Nat.le_add_right _ _

theorem three_mul_expAbove_lt {n : ℕ} (hn : n < 717217) : 3 * expAbove n < 2 ^ 64 := by
  have hle := expAbove_mono (Nat.le_of_lt_succ hn)
  have hlast := three_mul_expAbove 717216
  omega

theorem toNat_getExpForLevel {l : UInt32} (hpos : 1 ≤ l) (hle : l ≤ maxLevel) :
    (getExpForLevel l.toInt32).toNat = expAbove (l.toNat - 1) := by
  rw [UInt32.le_iff_toNat_le] at hpos hle
  change 1 ≤ _ at hpos
  change _ ≤ 717217 at hle
  obtain ⟨n, hn⟩ : ∃ n, l.toNat = n + 1 := ⟨l.toNat - 1, by omega⟩
  obtain rfl : UInt32.ofNat (n + 1) = l := by rw [← hn, UInt32.ofNat_toNat]
  rw [getExpForLevel_ofNat (by omega), UInt64.toNat_div, UInt64.toNat_ofNat',
    Nat.mod_eq_of_lt (three_mul_expAbove_lt (by omega)), hn, Nat.add_sub_cancel]
  exact Nat.mul_div_cancel_left _ (by decide)

theorem getExpForLevel_maxLevel :
    getExpForLevel (maxLevel + 1).toInt32 < getExpForLevel maxLevel.toInt32 := by decide

theorem toNat_succ_of_lt {l m : UInt32} (h : l < m) : (l + 1).toNat = l.toNat + 1 := by
  have hlt := UInt32.lt_iff_toNat_lt.mp h
  have hbound := m.toNat_lt
  rw [UInt32.toNat_add, UInt32.toNat_one, Nat.mod_eq_of_lt (by omega)]

theorem one_le_succ {l m : UInt32} (h : l < m) : 1 ≤ l + 1 ∧ l + 1 ≤ m := by
  rw [UInt32.le_iff_toNat_le, UInt32.le_iff_toNat_le, toNat_succ_of_lt h]
  exact ⟨Nat.le_add_left _ _, UInt32.lt_iff_toNat_lt.mp h⟩

/-- Below the last level the next one takes more experience. -/
theorem toNat_getExpForLevel_succ {l : UInt32} (hpos : 1 ≤ l) (hlt : l < maxLevel) :
    (getExpForLevel (l + 1).toInt32).toNat =
      (getExpForLevel l.toInt32).toNat + expStep (l.toNat - 1) := by
  obtain ⟨hpos', hle'⟩ := one_le_succ hlt
  obtain ⟨n, hn⟩ : ∃ n, l.toNat = n + 1 :=
    Nat.exists_eq_add_of_le' (UInt32.le_iff_toNat_le.mp hpos)
  rw [toNat_getExpForLevel hpos (UInt32.le_of_lt hlt), toNat_getExpForLevel hpos' hle',
    toNat_succ_of_lt hlt, hn, Nat.add_sub_cancel, Nat.add_sub_cancel, expAbove]

theorem getExpForLevel_lt_succ {l : UInt32} (hpos : 1 ≤ l) (hlt : l < maxLevel) :
    getExpForLevel l.toInt32 < getExpForLevel (l + 1).toInt32 := by
  rw [UInt64.lt_iff_toNat_lt, toNat_getExpForLevel_succ hpos hlt, expStep]
  omega

/-- The level is the one of the experience, or the last one. -/
structure Placed (p : Stats) : Prop where
  level_le : p.level ≤ maxLevel
  curr_le : p.currLevelExp ≤ p.experience
  lt_next : p.experience < p.nextLevelExp ∨ p.level = maxLevel

/-- The percent of the way to the next level; the last level shows none. -/
def PercentRight (p : Stats) : Prop :=
  p.levelPercent.toNat =
    if p.level = maxLevel then 0
    else 100 * (p.experience.toNat - p.currLevelExp.toNat) /
      (p.nextLevelExp.toNat - p.currLevelExp.toNat)

variable {p q : Stats}

theorem Placed.one_le (h : Placed p) : 1 ≤ p.level := by
  by_contra hlt
  have hzero : p.level = 0 := by
    rw [UInt32.not_le, UInt32.lt_iff_toNat_lt] at hlt
    exact UInt32.toNat_inj.mp (by change p.level.toNat = 0; change _ < 1 at hlt; omega)
  obtain hlt | hmax := h.lt_next
  · rw [Stats.nextLevelExp, hzero] at hlt
    exact absurd hlt (UInt64.not_lt.mpr (UInt64.zero_le))
  · rw [hzero] at hmax
    cases hmax

namespace Stats

theorem nextLevelExp_le_iff (hpos : 1 ≤ p.level) (hle : p.level ≤ maxLevel) :
    p.nextLevelExp ≤ p.currLevelExp ↔ p.level = maxLevel := by
  constructor
  · intro h
    by_contra hne
    exact UInt64.not_le.mpr (getExpForLevel_lt_succ hpos (UInt32.lt_of_le_of_ne hle hne)) h
  · intro h
    rw [nextLevelExp, currLevelExp, h]
    exact UInt64.le_of_lt getExpForLevel_maxLevel

/-- A run of level ups ends at the level of the experience, which it keeps. -/
theorem gainLevels_placed {curr next : UInt64} (hpos : 1 ≤ p.level) (hlt : p.level < maxLevel)
    (hcurr : curr = p.currLevelExp) (hnext : next = p.nextLevelExp) (hle : curr ≤ p.experience) :
    Placed (p.gainLevels curr next).1 ∧ (p.gainLevels curr next).1.experience = p.experience ∧
      (p.gainLevels curr next).2 = ((p.gainLevels curr next).1.currLevelExp,
        (p.gainLevels curr next).1.nextLevelExp) := by
  fun_induction gainLevels p curr next with
  | case1 p curr next hexp hlast =>
    obtain ⟨hpos', hle'⟩ := one_le_succ hlt
    subst hnext
    have hmax : p.gainLevel.level = maxLevel := (nextLevelExp_le_iff hpos' hle').mp hlast
    exact ⟨⟨hle', hexp, .inr hmax⟩, rfl, rfl⟩
  | case2 p curr next hexp hlast ih =>
    obtain ⟨hpos', hle'⟩ := one_le_succ hlt
    subst hnext
    have hlt' : p.gainLevel.level < maxLevel :=
      UInt32.lt_of_le_of_ne hle' fun h => hlast ((nextLevelExp_le_iff hpos' hle').mpr h)
    exact ih hpos' hlt' rfl rfl hexp
  | case3 p curr next hexp =>
    subst hcurr hnext
    exact ⟨⟨UInt32.le_of_lt hlt, hle, .inl (UInt64.not_le.mp hexp)⟩, rfl, rfl⟩

/-- A run of level downs ends at the level of the experience, which it keeps. -/
theorem loseLevels_placed {curr : UInt64} (hpos : 1 ≤ p.level) (hle : p.level ≤ maxLevel)
    (hcurr : curr = p.currLevelExp)
    (hlt : p.experience < p.nextLevelExp ∨ p.level = maxLevel) :
    Placed (p.loseLevels curr).1 ∧ (p.loseLevels curr).1.experience = p.experience ∧
      (p.loseLevels curr).2 = (p.loseLevels curr).1.currLevelExp := by
  fun_induction loseLevels p curr with
  | case1 p curr hloop ih =>
    have hnat := UInt32.lt_iff_toNat_lt.mp hloop.1
    change 1 < _ at hnat
    have hsub : (p.level - 1).toNat = p.level.toNat - 1 :=
      UInt32.toNat_sub_of_le _ _ (UInt32.le_of_lt hloop.1)
    have hlevel : p.loseLevel.level + 1 = p.level := UInt32.sub_add_cancel _ _
    have hpos' : 1 ≤ p.loseLevel.level := by
      rw [UInt32.le_iff_toNat_le]
      change 1 ≤ (p.level - 1).toNat
      omega
    have hle' : p.loseLevel.level ≤ maxLevel := by
      rw [UInt32.le_iff_toNat_le] at hle ⊢
      change (p.level - 1).toNat ≤ _
      omega
    refine ih hpos' hle' rfl (.inl ?_)
    rw [nextLevelExp, hlevel]
    exact lt_of_lt_of_eq hloop.2 hcurr
  | case2 p curr hloop =>
    subst hcurr
    refine ⟨⟨hle, ?_, hlt⟩, rfl, rfl⟩
    by_cases hone : 1 < p.level
    · exact UInt64.not_lt.mp fun h => hloop ⟨hone, h⟩
    · have hlevel : p.level = 1 := UInt32.le_antisymm (UInt32.not_lt.mp hone) hpos
      rw [currLevelExp, hlevel]
      exact UInt64.zero_le

theorem setLevelPercent_right (h : Placed p) :
    PercentRight (p.setLevelPercent p.currLevelExp p.nextLevelExp) := by
  unfold PercentRight
  change UInt8.toNat (if p.currLevelExp < p.nextLevelExp then _ else 0) =
    if p.level = maxLevel then _ else _
  have hiff := nextLevelExp_le_iff h.one_le h.level_le
  split
  · next hlt =>
    have hne : p.level ≠ maxLevel := fun heq => UInt64.not_le.mpr hlt (hiff.mpr heq)
    have hlevel := UInt32.lt_of_le_of_ne h.level_le hne
    have hnext := toNat_getExpForLevel_succ h.one_le hlevel
    have hexp := h.lt_next.resolve_right hne
    rw [if_neg hne, getPercentLevel_eq]
    · rw [UInt64.toNat_sub_of_le _ _ h.curr_le, UInt64.toNat_sub_of_le _ _ (UInt64.le_of_lt hlt)]
      rfl
    · rw [UInt64.lt_iff_toNat_lt, UInt64.toNat_sub_of_le _ _ h.curr_le,
        UInt64.toNat_sub_of_le _ _ (UInt64.le_of_lt hlt)]
      have hcurr := UInt64.le_iff_toNat_le.mp h.curr_le
      have hnat := UInt64.lt_iff_toNat_lt.mp hexp
      omega
    · rw [UInt64.toNat_sub_of_le _ _ (UInt64.le_of_lt hlt), hnext, Nat.add_sub_cancel_left]
      refine expStep_lt ?_
      have hnat := UInt32.lt_iff_toNat_lt.mp hlevel
      change _ < 717217 at hnat
      omega
  · next hle =>
    rw [if_pos (hiff.mp (UInt64.not_lt.mp hle))]
    rfl
@[simp] theorem level_setLevelPercent {curr next : UInt64} :
    (p.setLevelPercent curr next).level = p.level := rfl

@[simp] theorem experience_setLevelPercent {curr next : UInt64} :
    (p.setLevelPercent curr next).experience = p.experience := rfl

@[simp] theorem level_refresh {prevLevel : UInt32} : (p.refresh prevLevel).level = p.level := by
  unfold refresh
  split <;> rfl

@[simp] theorem experience_refresh {prevLevel : UInt32} :
    (p.refresh prevLevel).experience = p.experience := by
  unfold refresh
  split <;> rfl

end Stats

/-- Only level and experience say where a player is placed. -/
theorem Placed.congr (h : Placed p) (hlevel : q.level = p.level)
    (hexp : q.experience = p.experience) : Placed q where
  level_le := hlevel ▸ h.level_le
  curr_le := by
    rw [Stats.currLevelExp, hlevel, hexp]
    exact h.curr_le
  lt_next := by
    rw [Stats.nextLevelExp, hlevel, hexp]
    exact h.lt_next

theorem max_zero_toInt64 {x : UInt64} (h : x.toNat < 2 ^ 63) : (max 0 x.toInt64).toUInt64 = x := by
  have hle : (0 : Int64) ≤ x.toInt64 := by
    rw [Int64.le_iff_toInt_le, Int64.toInt_zero, Int64.toInt, UInt64.toBitVec_toInt64,
      BitVec.toInt_eq_toNat_of_lt]
    · exact Int.natCast_nonneg _
    · change 2 * x.toNat < 2 ^ 64
      omega
  change (if (0 : Int64) ≤ x.toInt64 then x.toInt64 else 0).toUInt64 = x
  rw [if_pos hle, UInt64.toUInt64_toInt64]

namespace Stats
/-- The experience bound of a run; below it the signed casts are exact. -/
abbrev Bounded (p : Stats) : Prop := p.experience.toNat < 2 ^ 63

theorem addExperience_placed {exp : UInt64} {onGain : UInt64 → UInt64} (h : Placed p)
    (hbound : p.experience.toNat + (onGain exp).toNat < 2 ^ 63) :
    (Placed (p.addExperience exp onGain) ∧ Bounded (p.addExperience exp onGain)) ∧
      (p.addExperience exp onGain = p ∨ PercentRight (p.addExperience exp onGain)) := by
  have hiff := nextLevelExp_le_iff h.one_le h.level_le
  unfold addExperience
  split
  · next hlast =>
    refine ⟨⟨h.congr rfl rfl, ?_⟩, .inr ?_⟩
    · exact Nat.lt_of_le_of_lt (Nat.le_add_right _ _) hbound
    · unfold PercentRight
      rw [if_pos (hiff.mp hlast)]
      rfl
  · next hlast =>
    dsimp only
    split
    · exact ⟨⟨h, Nat.lt_of_le_of_lt (Nat.le_add_right _ _) hbound⟩, .inl rfl⟩
    · have hlt := UInt32.lt_of_le_of_ne h.level_le fun heq => hlast (hiff.mpr heq)
      have hsum : (p.experience + onGain exp).toNat = p.experience.toNat + (onGain exp).toNat := by
        rw [UInt64.toNat_add, Nat.mod_eq_of_lt (by omega)]
      have hle : p.currLevelExp ≤ p.experience + onGain exp := by
        have hcurr := UInt64.le_iff_toNat_le.mp h.curr_le
        rw [UInt64.le_iff_toNat_le, hsum]
        omega
      obtain ⟨hplaced, hexp, hlevels⟩ :=
        gainLevels_placed (p := { p with experience := p.experience + onGain exp }) h.one_le hlt
          rfl rfl hle
      generalize gainLevels { p with experience := p.experience + onGain exp } p.currLevelExp
        p.nextLevelExp = r at *
      obtain ⟨q, r⟩ := r
      obtain rfl : r = (q.currLevelExp, q.nextLevelExp) := hlevels
      have hplaced' := hplaced.congr (q := q.refresh p.level) level_refresh experience_refresh
      refine ⟨⟨hplaced'.congr rfl rfl, ?_⟩, .inr ?_⟩
      · change (q.refresh p.level).experience.toNat < _
        rw [experience_refresh, show q.experience = _ from hexp, hsum]
        exact hbound
      · have hright := setLevelPercent_right hplaced'
        rwa [currLevelExp, nextLevelExp, level_refresh] at hright

/-- Less experience never lies beyond the next level. -/
theorem loseLevels_of_le {e : UInt64} (h : Placed p) (he : e ≤ p.experience) :
    ∃ q, loseLevels { p with experience := e } p.currLevelExp = (q, q.currLevelExp) ∧
      Placed q ∧ q.experience = e := by
  have hlt : e < p.nextLevelExp ∨ p.level = maxLevel :=
    h.lt_next.imp_left (UInt64.lt_of_le_of_lt he)
  obtain ⟨hplaced, hexp, hcurr⟩ :=
    loseLevels_placed (p := { p with experience := e }) h.one_le h.level_le rfl hlt
  exact ⟨_, Prod.ext rfl hcurr, hplaced, hexp⟩

theorem removeExperience_placed {exp : UInt64} {onLose : UInt64 → UInt64} (h : Placed p)
    (hbound : Bounded p) (hle : onLose exp ≤ p.experience) :
    (Placed (p.removeExperience exp onLose) ∧ Bounded (p.removeExperience exp onLose)) ∧
      (p.removeExperience exp onLose = p ∨ PercentRight (p.removeExperience exp onLose)) := by
  unfold removeExperience
  split
  · exact ⟨⟨h, hbound⟩, .inl rfl⟩
  · dsimp only
    split
    · exact ⟨⟨h, hbound⟩, .inl rfl⟩
    · have hsub := UInt64.toNat_sub_of_le _ _ hle
      have hless : p.experience - onLose exp ≤ p.experience := by
        rw [UInt64.le_iff_toNat_le, hsub]
        exact Nat.sub_le _ _
      rw [max_zero_toInt64 (by omega)]
      obtain ⟨q, hq, hplaced, hexp⟩ := loseLevels_of_le h hless
      rw [hq]
      have hplaced' := hplaced.congr (q := q.refresh p.level) level_refresh experience_refresh
      refine ⟨⟨hplaced'.congr rfl rfl, ?_⟩, .inr ?_⟩
      · change (q.refresh p.level).experience.toNat < _
        rw [experience_refresh, hexp, hsub]
        omega
      · have hright := setLevelPercent_right hplaced'
        rwa [currLevelExp, nextLevelExp, level_refresh] at hright

theorem death_placed {expLoss : UInt64} {onLose : UInt64 → UInt64} (h : Placed p)
    (hbound : Bounded p) (hle : onLose expLoss ≤ p.experience) :
    (Placed (p.death expLoss onLose) ∧ Bounded (p.death expLoss onLose)) ∧
      (p.death expLoss onLose = p ∨ PercentRight (p.death expLoss onLose)) := by
  unfold death
  dsimp only
  split
  · exact ⟨⟨h, hbound⟩, .inl rfl⟩
  · obtain ⟨e, he, hp⟩ : ∃ e ≤ p.experience,
        (if p.vocation.id = VOCATION_NONE ∨ 7 < p.level then
          { p with experience := p.experience - onLose expLoss } else p) =
        { p with experience := e } := by
      split
      · refine ⟨_, ?_, rfl⟩
        rw [UInt64.le_iff_toNat_le, UInt64.toNat_sub_of_le _ _ hle]
        exact Nat.sub_le _ _
      · exact ⟨_, UInt64.le_refl _, rfl⟩
    rw [hp]
    obtain ⟨q, hq, hplaced, hexp⟩ := loseLevels_of_le h he
    rw [show currLevelExp { p with experience := e } = p.currLevelExp from rfl, hq]
    refine ⟨⟨hplaced.congr rfl rfl, ?_⟩, .inr (setLevelPercent_right hplaced)⟩
    change q.experience.toNat < _
    rw [hexp]
    exact Nat.lt_of_le_of_lt (UInt64.le_iff_toNat_le.mp he) hbound

/-- What changes the experience; the functions are the events of the scripts. -/
inductive Action
  | addExperience (exp : UInt64) (onGainExperience : UInt64 → UInt64)
  | removeExperience (exp : UInt64) (onLoseExperience : UInt64 → UInt64)
  | death (expLoss : UInt64) (onLoseExperience : UInt64 → UInt64)

def step (p : Stats) : Action → Stats
  | .addExperience exp onGain => p.addExperience exp onGain
  | .removeExperience exp onLose => p.removeExperience exp onLose
  | .death expLoss onLose => p.death expLoss onLose

/-- Gains stay below the bound, and nothing is lost that is not there. -/
def Allowed (p : Stats) : Action → Prop
  | .addExperience exp onGain => p.experience.toNat + (onGain exp).toNat < 2 ^ 63
  | .removeExperience exp onLose => onLose exp ≤ p.experience
  | .death expLoss onLose => onLose expLoss ≤ p.experience

instance (p : Stats) : (a : Action) → Decidable (Allowed p a)
  | .addExperience exp onGain =>
    inferInstanceAs (Decidable (p.experience.toNat + (onGain exp).toNat < 2 ^ 63))
  | .removeExperience exp onLose => inferInstanceAs (Decidable (onLose exp ≤ p.experience))
  | .death expLoss onLose => inferInstanceAs (Decidable (onLose expLoss ≤ p.experience))

theorem step_placed {a : Action} (h : Placed p ∧ Bounded p) (ha : Allowed p a) :
    (Placed (step p a) ∧ Bounded (step p a)) ∧ (step p a = p ∨ PercentRight (step p a)) := by
  cases a with
  | addExperience exp onGain => exact addExperience_placed h.1 ha
  | removeExperience exp onLose => exact removeExperience_placed h.1 h.2 ha
  | death expLoss onLose => exact death_placed h.1 h.2 ha

/-- After any run the level is the one of the experience, up to the last level, and the percent
shows the way to the next one, unless no step changed anything. -/
theorem run_placed {actions : List Action} (hplaced : Placed p) (hbound : Bounded p)
    (hallowed : Run.Steps step Allowed p actions) :
    Placed (actions.foldl step p) ∧
      (actions.foldl step p = p ∨ PercentRight (actions.foldl step p)) := by
  have hrun := Run.invariant (P := fun q => (Placed q ∧ Bounded q) ∧ (q = p ∨ PercentRight q))
    ?_ ⟨⟨hplaced, hbound⟩, .inl rfl⟩ hallowed
  · exact ⟨hrun.1.1, hrun.2⟩
  · rintro q a ⟨hq, hpercent⟩ ha
    obtain ⟨hnext, hkept | hright⟩ := step_placed hq ha
    · rw [hkept]
      exact ⟨hq, hpercent⟩
    · exact ⟨hnext, .inr hright⟩

def novice : Stats := { vocation := { id := 1 } }

theorem experience_step_novice : (step novice (.addExperience 100 id)).experience = 100 := by
  change (addExperience _ _ _).experience = _
  simp only [addExperience]
  rw [gainLevels, gainLevels]
  decide +kernel

theorem run_placed_novice :
    let run := [Action.addExperience 100 id, .death 10 id].foldl step novice
    Placed run ∧ (run = novice ∨ PercentRight run) := by
  refine run_placed ⟨by decide, by decide, by decide⟩ (by decide) ⟨by decide, ?_, trivial⟩
  change 10 ≤ (step novice _).experience
  rw [experience_step_novice]
  decide

/-- The experience lies between those of the level and of the next one. -/
abbrev InRange (p : Stats) : Prop :=
  p.currLevelExp ≤ p.experience ∧ p.experience < p.nextLevelExp

/-- One point of experience. -/
def onePoint : Action := .addExperience 1 id

/-- The point before the last level. -/
def beforeLast : Stats :=
  { vocation := { id := 1 }, level := 717216, experience := 6148891664141657599 }

/-- A level beyond the last, where the formula has wrapped around. -/
def beyondLast : Stats :=
  { vocation := { id := 1 }, level := 70000000, experience := 1986480012244649982 }

instance (p : Stats) : Decidable (PercentRight p) :=
  inferInstanceAs (Decidable (p.levelPercent.toNat = ite _ _ _))

theorem level_step_beforeLast : (step beforeLast onePoint).level = maxLevel := by
  change (addExperience _ _ _).level = _
  simp only [addExperience]
  rw [gainLevels]
  decide +kernel

theorem step_beyondLast : step beyondLast onePoint =
    { beyondLast with experience := 1986480012244649983, levelPercent := 24 } := by
  change addExperience _ _ _ = _
  simp only [addExperience]
  rw [gainLevels]
  decide +kernel

theorem onePoint_leaves_range :
    (InRange beforeLast ∧ Allowed beforeLast onePoint ∧ ¬ InRange (step beforeLast onePoint)) ∧
      InRange beyondLast ∧ Allowed beyondLast onePoint ∧
        ¬ PercentRight (step beyondLast onePoint) := by
  refine ⟨⟨by decide, by decide, ?_⟩, by decide, by decide, ?_⟩
  · rintro ⟨hle, hlt⟩
    rw [currLevelExp, level_step_beforeLast] at hle
    rw [nextLevelExp, level_step_beforeLast] at hlt
    have hwrap := UInt64.lt_of_le_of_lt hle hlt
    exact UInt64.lt_irrefl _ (UInt64.lt_trans hwrap getExpForLevel_maxLevel)
  · rw [step_beyondLast]
    decide

end Stats

end OTServBR.Player
