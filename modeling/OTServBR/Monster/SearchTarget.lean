import Mathlib.Order.OrderDual
import OTServBR.Lib.Extremal
import OTServBR.Map.Path
import OTServBR.Monster.Basic

/-! # The search for a target

Of the targets in its list a monster picks the nearest, the one with the least
health or the one that did most damage to it. The loop over the damage starts
from zero and never looks at the damage of the first candidate.
-/

namespace OTServBR.Targets

inductive TargetSearchType
  | DEFAULT | NEAREST | HP | DAMAGE | RANDOM
  deriving DecidableEq, Repr

/-- A creature that may be a target. -/
structure Prey (ι : Type*) extends Creature ι where
  isAttackable : Bool := true
  inProtectionZone : Bool := false
  isInvisible : Bool := false

/-- A monster that looks for a target. -/
structure Hunter (ι : Type*) where
  position : Position := {}
  targetList : List ι
  /-- The totals of the damage that creatures have done to it. -/
  damageMap : ι → Option ℤ
  targetDistance : ℤ := 1
  targetStrategiesNearestPercent : ℤ := 0
  targetStrategiesLowerHPPercent : ℤ := 0
  targetStrategiesMostDamagePercent : ℤ := 0
  isHostile : Bool := true
  isPassive : Bool := false
  canSeeInvisibility : Bool := false
  /-- The ranges of the attack spells. -/
  attackRanges : List ℕ := []

/-- What is asked of the game: the sight between two positions, whether a creature has attacked
the monster lately, and whether the monster can follow it. -/
structure Surroundings (ι : Type*) where
  prey : ι → Prey ι
  isSightClear : Position → Position → Bool → Bool
  hasBeenAttacked : ι → Bool
  setFollowCreature : ι → Bool

namespace Hunter

variable {ι : Type*} (m : Hunter ι) (w : Surroundings ι)

def canSeeCreature (c : ι) : Bool := !(!m.canSeeInvisibility && (w.prey c).isInvisible)

def isTarget (c : ι) : Bool :=
  if (w.prey c).isRemoved || !(w.prey c).isAttackable || (w.prey c).inProtectionZone ||
      !m.canSeeCreature w c then false
  else if (w.prey c).position.z ≠ m.position.z then false
  else true

def distance (c : ι) : ℕ :=
  max (m.position.getDistanceX (w.prey c).position) (m.position.getDistanceY (w.prey c).position)

def canUseAttack (c : ι) : Bool :=
  if m.isHostile then
    if m.attackRanges.any fun range => range ≠ 0 ∧ m.distance w c ≤ range then
      w.isSightClear m.position (w.prey c).position true
    else false
  else true

def selectTarget [DecidableEq ι] (c : ι) : Bool :=
  if !m.isTarget w c then false
  else if m.isPassive && !w.hasBeenAttacked c then false
  else if c ∉ m.targetList then false
  else w.setFollowCreature c

/-- The strategy that is drawn where none is asked for. -/
def searchType (asked : TargetSearchType) (rnd : ℤ) : TargetSearchType :=
  if asked = .DEFAULT then
    if rnd ≤ m.targetStrategiesNearestPercent then .NEAREST
    else if rnd ≤ m.targetStrategiesNearestPercent + m.targetStrategiesLowerHPPercent then .HP
    else if rnd ≤ m.targetStrategiesNearestPercent + m.targetStrategiesLowerHPPercent +
        m.targetStrategiesMostDamagePercent then .DAMAGE
    else .RANDOM
  else asked

/-- The candidates. -/
def resultList : List ι :=
  m.targetList.filter fun c => m.isTarget w c && (m.targetDistance = 1 || m.canUseAttack w c)

/-! ### The loops over the candidates -/

def nearest (target : ι) (l : List ι) : ι :=
  Extremal.pick (fun c => OrderDual.toDual (m.distance w c)) target
    (OrderDual.toDual (m.distance w target)) l

variable {m} in
def weakest (target : ι) (l : List ι) : ι :=
  Extremal.pick (fun c => OrderDual.toDual (w.prey c).health) target
    (OrderDual.toDual (w.prey target).health) l

def mostDamaging (target : ι) (mostDamage : ℤ) : List ι → ι
  | [] => target
  | c :: l =>
    match m.damageMap c with
    | some total =>
      if mostDamage < total then mostDamaging c total l else mostDamaging target mostDamage l
    | none => mostDamaging target mostDamage l

variable [DecidableEq ι]

/-- Creatures are passed to `selectTarget` until one is selected: whether one was, and those that
were passed. -/
def selectFirst : List ι → Bool × List ι
  | [] => (false, [])
  | c :: l =>
    if m.selectTarget w c then (true, [c])
    else
      let rest := selectFirst l
      (rest.1, c :: rest.2)

/-- The answer, and the creatures that were passed to `selectTarget`. The first number is drawn for
the strategy, the second one for a candidate. -/
def searchTarget (asked : TargetSearchType) (rnd : ℤ) (random : ℕ) : Bool × List ι :=
  match m.resultList w with
  | [] => (false, [])
  | first :: rest =>
    match m.searchType asked rnd with
    | .NEAREST => m.selectFirst w (m.nearest w first rest :: m.targetList)
    | .HP => m.selectFirst w (weakest w first rest :: m.targetList)
    | .DAMAGE => m.selectFirst w (m.mostDamaging first 0 rest :: m.targetList)
    | _ =>
      let target := (first :: rest).getD random first
      (m.selectTarget w target, [target])

/-! ### The candidate that is picked -/

/-- The total in the damage map, zero where there is none. -/
def total (c : ι) : ℤ := (m.damageMap c).getD 0

/-- By a strategy a candidate is at least as good as another one. -/
def Prefers (strategy : TargetSearchType) (c other : ι) : Prop :=
  match strategy with
  | .NEAREST => m.distance w c ≤ m.distance w other
  | .HP => (w.prey c).health ≤ (w.prey other).health
  | .DAMAGE => m.total other ≤ m.total c
  | _ => True

/-- One of the other candidates did some damage and not less than the first one, or none of them
did any or more than the first one. -/
def FirstOutdone (first : ι) (rest : List ι) : Prop :=
  (∃ c ∈ rest, 0 < m.total c ∧ m.total first ≤ m.total c) ∨
    ∀ c ∈ rest, m.total c ≤ 0 ∧ m.total c ≤ m.total first

variable {m w} {first target : ι} {rest l : List ι} {mostDamage : ℤ}

omit [DecidableEq ι] in
theorem distance_nearest_le {c : ι} (hc : c ∈ first :: rest) :
    m.distance w (m.nearest w first rest) ≤ m.distance w c :=
  OrderDual.toDual_le_toDual.mp
    (@Extremal.le_value_pick _ _ _ (fun c => OrderDual.toDual (m.distance w c)) _ _ c hc)

omit [DecidableEq ι] in
theorem health_weakest_le {c : ι} (hc : c ∈ first :: rest) :
    (w.prey (weakest w first rest)).health ≤ (w.prey c).health :=
  OrderDual.toDual_le_toDual.mp
    (@Extremal.le_value_pick _ _ _ (fun c => OrderDual.toDual (w.prey c).health) _ _ c hc)

omit [DecidableEq ι] in
/-- Creatures that did no damage count with zero. -/
theorem mostDamaging_eq_pick (h : 0 ≤ mostDamage) :
    m.mostDamaging target mostDamage l = Extremal.pick m.total target mostDamage l := by
  induction l generalizing target mostDamage with
  | nil => rfl
  | cons c l ih =>
    rw [mostDamaging, Extremal.pick]
    cases hc : m.damageMap c with
    | none =>
      have htotal : ¬ mostDamage < m.total c := by
        rw [total, hc]
        exact not_lt.mpr h
      rw [if_neg htotal]
      exact ih h
    | some damage =>
      have htotal : m.total c = damage := by rw [total, hc]; rfl
      simp only [htotal]
      split_ifs with hmore
      · exact ih (h.trans hmore.le)
      · exact ih h

theorem head_selectFirst : (m.selectFirst w (target :: l)).2.head? = some target := by
  rw [selectFirst]
  split_ifs <;> rfl

/-- The candidate that is passed to `selectTarget` first. -/
def picked (m : Hunter ι) (w : Surroundings ι) (strategy : TargetSearchType) (first : ι)
    (rest : List ι) : ι :=
  match strategy with
  | .NEAREST => m.nearest w first rest
  | .HP => weakest w first rest
  | _ => m.mostDamaging first 0 rest

theorem head_searchTarget {asked : TargetSearchType} {rnd : ℤ} {random : ℕ}
    (hlist : m.resultList w = first :: rest)
    (hstrategy : m.searchType asked rnd ∈ [.NEAREST, .HP, .DAMAGE]) :
    (m.searchTarget w asked rnd random).2.head? =
      some (picked m w (m.searchType asked rnd) first rest) := by
  rw [searchTarget, hlist]
  generalize m.searchType asked rnd = strategy at hstrategy ⊢
  cases strategy with
  | NEAREST => exact head_selectFirst
  | HP => exact head_selectFirst
  | DAMAGE => exact head_selectFirst
  | DEFAULT => simp at hstrategy
  | RANDOM => simp at hstrategy

omit [DecidableEq ι] in
theorem picked_mem {strategy : TargetSearchType} :
    picked m w strategy first rest ∈ first :: rest := by
  cases strategy with
  | NEAREST => exact Extremal.pick_mem
  | HP => exact Extremal.pick_mem
  | _ =>
    unfold picked
    rw [mostDamaging_eq_pick (le_refl 0)]
    exact Extremal.pick_mem

omit [DecidableEq ι] in
theorem prefers_picked_iff {strategy : TargetSearchType}
    (hstrategy : strategy ∈ [.NEAREST, .HP, .DAMAGE]) :
    (∀ c ∈ first :: rest, m.Prefers w strategy (picked m w strategy first rest) c) ↔
      (strategy = .DAMAGE → m.FirstOutdone first rest) := by
  cases strategy with
  | NEAREST => exact iff_of_true (fun c hc => distance_nearest_le hc) (fun heq => by cases heq)
  | HP => exact iff_of_true (fun c hc => health_weakest_le hc) (fun heq => by cases heq)
  | DAMAGE =>
    unfold Prefers picked FirstOutdone
    rw [mostDamaging_eq_pick (le_refl 0), Extremal.forall_le_value_pick_iff]
    simp
  | DEFAULT => simp at hstrategy
  | RANDOM => simp at hstrategy

/-- The creature that is passed to `selectTarget` first is a best candidate, where the most damage
is searched for exactly if the first candidate is outdone. -/
theorem searchTarget_best_iff (m : Hunter ι) (w : Surroundings ι) (asked : TargetSearchType)
    (rnd : ℤ) (random : ℕ) (first : ι) (rest : List ι) (hlist : m.resultList w = first :: rest)
    (hstrategy : m.searchType asked rnd ∈ [.NEAREST, .HP, .DAMAGE]) :
    (∃ target ∈ m.resultList w, (m.searchTarget w asked rnd random).2.head? = some target ∧
      ∀ c ∈ m.resultList w, m.Prefers w (m.searchType asked rnd) target c) ↔
      (m.searchType asked rnd = .DAMAGE → m.FirstOutdone first rest) := by
  rw [head_searchTarget hlist hstrategy, hlist, ← prefers_picked_iff (w := w) hstrategy]
  constructor
  · rintro ⟨target, -, htarget, hall⟩
    cases htarget
    exact hall
  · exact fun hall => ⟨_, picked_mem, rfl, hall⟩

/-- A melee monster with three players around it that have done some damage. -/
def surrounded (damages : List ℤ) : Hunter ℕ where
  targetList := [0, 1, 2]
  damageMap c := damages[c]?

def openField : Surroundings ℕ where
  prey _ := { kind := .player false }
  isSightClear _ _ _ := true
  hasBeenAttacked _ := true
  setFollowCreature _ := true

/-- The second player did more damage than the first one. -/
theorem searchTarget_best_second : ∃ target ∈ (surrounded [5, 9]).resultList openField,
    ((surrounded [5, 9]).searchTarget openField .DAMAGE 1 0).2.head? = some target ∧
      ∀ c ∈ (surrounded [5, 9]).resultList openField,
        (surrounded [5, 9]).Prefers openField .DAMAGE target c :=
  (searchTarget_best_iff (surrounded [5, 9]) openField .DAMAGE 1 0 0 [1, 2] (by decide)
    (by decide)).mpr fun _ => Or.inl ⟨1, by decide⟩

/-- The second player is selected although the first one did more damage. -/
theorem searchTarget_not_best : ¬∀ (m : Hunter ℕ) (w : Surroundings ℕ) (asked : TargetSearchType)
    (rnd : ℤ) (random : ℕ), m.resultList w ≠ [] →
    m.searchType asked rnd ∈ [.NEAREST, .HP, .DAMAGE] →
    ∃ target ∈ m.resultList w, (m.searchTarget w asked rnd random).2.head? = some target ∧
      ∀ c ∈ m.resultList w, m.Prefers w (m.searchType asked rnd) target c := by
  intro h
  obtain ⟨target, -, htarget, hall⟩ := h (surrounded [9, 5]) openField .DAMAGE 1 0 (by decide)
    (by decide)
  have hsecond : ((surrounded [9, 5]).searchTarget openField .DAMAGE 1 0).2.head? = some 1 := by
    decide
  cases hsecond.symm.trans htarget
  exact absurd (hall 0 (by decide)) (by decide : ¬(9 : ℤ) ≤ 5)

end Hunter

end OTServBR.Targets
