import Mathlib.Algebra.Order.BigOperators.Group.Finset
import Mathlib.Order.Interval.Finset.Nat
import OTServBR.Lib.Bounded
import OTServBR.Lib.Run
import OTServBR.Player.Basic

/-! # Skills

A skill has a level, tries towards the next level, and a percent of them that
three places compute: training, dying and loading. Death divides by the
requirement of the own level instead of the next one.
-/

namespace OTServBR.Player

structure Skill where
  tries : UInt64 := 0
  level : UInt16 := 10
  percent : UInt8 := 0
  deriving DecidableEq, Repr

/-- `SKILL_FIST` to `SKILL_MANA_LEECH_AMOUNT` -/
abbrev SkillId := Fin 13

abbrev Skills := SkillId → Skill

namespace Skill

variable (req : UInt16 → UInt64)

def levelUp (s : Skill) : Skill := { s with level := s.level + 1, tries := 0, percent := 0 }

/-- The loop of `addSkillAdvance`; it returns the rest of the count and the requirements of the
level it ends at and of the one above. -/
def advance (s : Skill) (count currReqTries nextReqTries : UInt64) :
    Skill × UInt64 × UInt64 × UInt64 :=
  if nextReqTries ≤ s.tries + count then
    -- the skill has reached its last level
    if req (s.levelUp.level + 1) ≤ nextReqTries then
      (s.levelUp, 0, nextReqTries, req (s.levelUp.level + 1))
    else
      advance s.levelUp (count - (nextReqTries - s.tries)) nextReqTries (req (s.levelUp.level + 1))
  else (s, count, currReqTries, nextReqTries)
termination_by 2 ^ 64 - nextReqTries.toNat
decreasing_by
  have hlt := UInt64.lt_iff_toNat_lt.mp (UInt64.not_le.mp ‹¬ req _ ≤ nextReqTries›)
  have hbound := (req (s.levelUp.level + 1)).toNat_lt
  omega

/-- The event returns the tries that are gained. -/
def addSkillAdvance (s : Skill) (count : UInt64) (onGainSkillTries : UInt64 → UInt64) : Skill :=
  let currReqTries := req s.level
  let nextReqTries := req (s.level + 1)
  if nextReqTries ≤ currReqTries then s
  else
    let count := onGainSkillTries count
    if count = 0 then s
    else
      let (s, count, currReqTries, nextReqTries) := s.advance req count currReqTries nextReqTries
      let s := { s with tries := s.tries + count }
      let newPercent :=
        if currReqTries < nextReqTries then getPercentLevel s.tries nextReqTries else 0
      { s with percent := newPercent }

/-- All the tries from level 10 on. -/
def sumSkillTries (s : Skill) : UInt64 :=
  ((List.range' 11 (s.level.toNat - 10)).map fun c => req (.ofNat c)).sum + s.tries

/-- The loop of `death`; it returns the rest of the loss. -/
def lose (s : Skill) (lostSkillTries : UInt32) : Skill × UInt32 :=
  if s.tries < lostSkillTries.toUInt64 then
    let lostSkillTries := lostSkillTries - s.tries.toUInt32
    if s.level ≤ 10 then ({ s with level := 10, tries := 0 }, 0)
    else lose { s with tries := req s.level, level := s.level - 1 } lostSkillTries
  else (s, lostSkillTries)
termination_by s.level.toNat
decreasing_by
  have hlt := UInt16.lt_iff_toNat_lt.mp (UInt16.not_le.mp ‹¬ s.level ≤ 10›)
  change 10 < _ at hlt
  change (s.level - 1).toNat < _
  rw [UInt16.toNat_sub_of_le _ _ (UInt16.le_iff_toNat_le.mpr (show 1 ≤ _ by omega))]
  change _ - 1 < _
  omega

/-- `std::max<int32_t>(0, tries)` -/
def narrow (tries : UInt64) : UInt64 := (max 0 tries.toUInt32.toInt32).toInt64.toUInt64

/-- The part of `Player::death` that takes tries; `deathLoss` is the share that the death
costs. -/
def death (s : Skill) (deathLoss : UInt64 → UInt32) : Skill :=
  let (s, lostSkillTries) := s.lose req (deathLoss (s.sumSkillTries req))
  let s := { s with tries := narrow (s.tries - lostSkillTries.toUInt64) }
  { s with percent := getPercentLevel s.tries (req s.level) }

/-- The skill that `loadPlayer` makes of its columns. -/
def load (skillLevel : UInt16) (skillTries : UInt64) : Skill :=
  let nextSkillTries := req (skillLevel + 1)
  let skillTries := if nextSkillTries < skillTries then 0 else skillTries
  { level := skillLevel, tries := skillTries, percent := getPercentLevel skillTries nextSkillTries }

/-- Where there is a next level, the percent is that of the way to it. -/
def Right (s : Skill) : Prop :=
  req s.level < req (s.level + 1) →
    s.percent = getPercentLevel s.tries (req (s.level + 1)) ∧ s.tries < req (s.level + 1)

instance (s : Skill) : Decidable (Right req s) := inferInstanceAs (Decidable (_ → _))

end Skill

namespace Skills

variable (req : SkillId → UInt16 → UInt64)

inductive Action
  | addSkillAdvance (skill : SkillId) (count : UInt64) (onGainSkillTries : UInt64 → UInt64)
  | death (deathLoss : UInt64 → UInt32)
  /-- A login, with the columns of the skills. -/
  | load (level : SkillId → UInt16) (tries : SkillId → UInt64)

def step (skills : Skills) : Action → Skills
  | .addSkillAdvance skill count onGain =>
    Function.update skills skill ((skills skill).addSkillAdvance (req skill) count onGain)
  | .death deathLoss => fun skill => (skills skill).death (req skill) deathLoss
  | .load level tries => fun skill => .load (req skill) (level skill) (tries skill)

/-- Every skill shows the way to its next level. -/
def AllRight (skills : Skills) : Prop := ∀ skill, (skills skill).Right (req skill)

end Skills

namespace Skill

variable {req : UInt16 → UInt64} {s : Skill}

/-- The loop keeps the requirements of its level, and ends below the next one or at the last. -/
theorem advance_spec {count curr next : UInt64} (hcurr : curr = req s.level)
    (hnext : next = req (s.level + 1)) :
    ∃ q count', s.advance req count curr next = (q, count', req q.level, req (q.level + 1)) ∧
      (req q.level < req (q.level + 1) → q.tries + count' < req (q.level + 1)) := by
  fun_induction advance req s count curr next with
  | case1 s count curr next hle hlast =>
    subst hnext
    exact ⟨s.levelUp, 0, rfl, fun hlt => absurd hlt (UInt64.not_lt.mpr hlast)⟩
  | case2 s count curr next hle hlast ih => exact ih hnext rfl
  | case3 s count curr next hle =>
    subst hcurr hnext
    exact ⟨s, count, rfl, fun _ => UInt64.not_le.mp hle⟩

theorem Right.addSkillAdvance {count : UInt64} {onGain : UInt64 → UInt64} (h : Right req s) :
    Right req (s.addSkillAdvance req count onGain) := by
  unfold Skill.addSkillAdvance
  dsimp only
  split
  · exact h
  · split
    · exact h
    · obtain ⟨q, count', hq, hlt⟩ := @advance_spec _ s (onGain count) _ _ rfl rfl
      rw [hq]
      intro hreach
      exact ⟨if_pos hreach, hlt hreach⟩

/-- What a loss takes before the skill has no tries of a level left. -/
def reach (req : UInt16 → UInt64) (s : Skill) (l : ℕ) : ℕ :=
  s.tries.toNat + ∑ c ∈ Finset.Ioc l s.level.toNat, (req (.ofNat c)).toNat

/-- The level and the tries that a loss leaves: those it does not reach, or, where it takes more
than there is down to level 10, nothing. -/
def Remains (req : UInt16 → UInt64) (s : Skill) (lost l t : ℕ) : Prop :=
  (t + lost = s.reach req l ∧
    (l = s.level.toNat ∨ 10 ≤ l ∧ l < s.level.toNat ∧ s.reach req (l + 1) < lost)) ∨
  (l = 10 ∧ t = 0 ∧ s.reach req 10 < lost)

theorem reach_of_le {l : ℕ} (h : s.level.toNat ≤ l) : s.reach req l = s.tries.toNat := by
  rw [reach, Finset.Ioc_eq_empty (by omega), Finset.sum_empty, Nat.add_zero]

theorem reach_succ {l : ℕ} (h : l < s.level.toNat) :
    s.reach req l = s.reach req (l + 1) + (req (.ofNat (l + 1))).toNat := by
  have hsplit : Finset.Ioc l s.level.toNat = insert (l + 1) (Finset.Ioc (l + 1) s.level.toNat) := by
    ext c
    simp only [Finset.mem_Ioc, Finset.mem_insert]
    omega
  rw [reach, reach, hsplit, Finset.sum_insert (by simp)]
  omega

theorem reach_anti {l l' : ℕ} (h : l ≤ l') : s.reach req l' ≤ s.reach req l :=
  Nat.add_le_add_left (Finset.sum_le_sum_of_subset (Finset.Ioc_subset_Ioc_left h)) _

/-- A loss leaves one level and one number of tries. -/
theorem Remains.unique {lost l t l' t' : ℕ} (h : Remains req s lost l t)
    (h' : Remains req s lost l' t') : l = l' ∧ t = t' := by
  have hle : ∀ {l t l' t' : ℕ}, Remains req s lost l t → Remains req s lost l' t' → l' ≤ l := by
    intro l t l' t' h h'
    by_contra hlt
    have hanti := @reach_anti req s _ _ (show l + 1 ≤ l' by omega)
    have hten := fun hl : 10 ≤ l + 1 => @reach_anti req s _ _ hl
    have hlow := fun hl : s.level.toNat ≤ 10 => @reach_of_le req _ _ hl
    have hself := @reach_of_le req s _ le_rfl
    unfold Remains at h h'
    obtain ⟨hsum, rfl | hl⟩ | h := h <;> obtain ⟨hsum', rfl | hl'⟩ | h' := h' <;> omega
  have heq : l = l' := le_antisymm (hle h' h) (hle h h')
  subst heq
  refine ⟨rfl, ?_⟩
  have hten := fun hl : 10 ≤ l => @reach_anti req s _ _ hl
  have hlow := fun hl : s.level.toNat ≤ 10 => @reach_of_le req _ _ hl
  have hself := @reach_of_le req s _ le_rfl
  unfold Remains at h h'
  omega

/-- Tries that remain of a level lie below the next requirement. -/
theorem Remains.lt {lost l t : ℕ} (h : Remains req s lost l t) (hs : Right req s)
    (hreach : req (.ofNat l) < req (.ofNat (l + 1))) : t < (req (.ofNat (l + 1))).toNat := by
  obtain ⟨hsum, rfl | ⟨-, hl, hlost⟩⟩ | ⟨rfl, rfl, -⟩ := h
  · have hlt := hs (by rwa [UInt16.ofNat_add, UInt16.ofNat_toNat] at hreach)
    rw [reach_of_le le_rfl] at hsum
    have hnat := UInt64.lt_iff_toNat_lt.mp hlt.2
    rw [UInt16.ofNat_add, UInt16.ofNat_toNat]
    change t < (req (s.level + 1)).toNat
    omega
  · rw [reach_succ hl] at hsum
    omega
  · exact Nat.zero_lt_of_lt (UInt64.lt_iff_toNat_lt.mp hreach)

/-- The level below, with all its tries. -/
def levelDown (req : UInt16 → UInt64) (s : Skill) : Skill :=
  { s with tries := req s.level, level := s.level - 1 }

theorem toNat_sub_one {l : UInt16} (h : ¬ l ≤ 10) : (l - 1).toNat = l.toNat - 1 ∧ 10 < l.toNat := by
  have hlt := UInt16.lt_iff_toNat_lt.mp (UInt16.not_le.mp h)
  change 10 < _ at hlt
  rw [UInt16.toNat_sub_of_le _ _ (UInt16.le_iff_toNat_le.mpr (show 1 ≤ _ by omega))]
  exact ⟨rfl, hlt⟩

theorem reach_levelDown {l : ℕ} (h : ¬ s.level ≤ 10) (hl : l < s.level.toNat) :
    s.reach req l = s.tries.toNat + (s.levelDown req).reach req l := by
  obtain ⟨hsub, hten⟩ := toNat_sub_one h
  have hsplit : Finset.Ioc l s.level.toNat =
      insert s.level.toNat (Finset.Ioc l (s.level - 1).toNat) := by
    ext c
    simp only [Finset.mem_Ioc, Finset.mem_insert]
    omega
  have hself : UInt16.ofNat s.level.toNat = s.level := UInt16.ofNat_toNat
  rw [reach, reach, levelDown, hsplit, Finset.sum_insert (by simp [hsub]; omega), hself]

theorem Remains.of_levelDown {lost l t : ℕ} (h : ¬ s.level ≤ 10) (hlost : s.tries.toNat < lost)
    (hrest : Remains req (s.levelDown req) (lost - s.tries.toNat) l t) :
    Remains req s lost l t := by
  obtain ⟨hsub, hten⟩ := toNat_sub_one h
  have hlevel : (s.levelDown req).level.toNat = s.level.toNat - 1 := hsub
  have hself := @reach_of_le req s _ le_rfl
  obtain ⟨hsum, hl⟩ | ⟨rfl, rfl, hlt⟩ := hrest
  · have hdown := @reach_levelDown req _ _ h (show l < s.level.toNat by omega)
    refine .inl ⟨by omega, .inr ⟨by omega, by omega, ?_⟩⟩
    obtain rfl | ⟨-, hl', hreach⟩ := hl
    · rw [show (s.levelDown req).level.toNat + 1 = s.level.toNat by omega, hself]
      exact hlost
    · have hdown' := @reach_levelDown req _ _ h (show l + 1 < s.level.toNat by omega)
      omega
  · have hdown := @reach_levelDown req _ _ h (show 10 < s.level.toNat by omega)
    exact .inr ⟨rfl, rfl, by omega⟩

theorem lose_remains (req : UInt16 → UInt64) (s : Skill) (lost : UInt32) :
    (s.lose req lost).2.toNat ≤ (s.lose req lost).1.tries.toNat ∧
      Remains req s lost.toNat (s.lose req lost).1.level.toNat
        ((s.lose req lost).1.tries.toNat - (s.lose req lost).2.toNat) := by
  fun_induction lose req s lost with
  | case1 s lost hlt hle =>
    have hlost := UInt64.lt_iff_toNat_lt.mp hlt
    rw [UInt32.toNat_toUInt64] at hlost
    have hlevel : s.level.toNat ≤ 10 := UInt16.le_iff_toNat_le.mp hle
    refine ⟨le_rfl, .inr ⟨rfl, rfl, ?_⟩⟩
    rwa [reach_of_le hlevel]
  | case2 s lost hlt lost' hle ih =>
    have hlost := UInt64.lt_iff_toNat_lt.mp hlt
    rw [UInt32.toNat_toUInt64] at hlost
    have hrest : lost'.toNat = lost.toNat - s.tries.toNat := by
      have htries : s.tries.toUInt32.toNat = s.tries.toNat := by
        rw [UInt64.toNat_toUInt32, Nat.mod_eq_of_lt (hlost.trans lost.toNat_lt)]
      rw [UInt32.toNat_sub_of_le _ _ (UInt32.le_iff_toNat_le.mpr (by omega)), htries]
    refine ⟨ih.1, .of_levelDown hle hlost ?_⟩
    rw [← hrest]
    exact ih.2
  | case3 s lost hlt =>
    have hlost := UInt64.le_iff_toNat_le.mp (UInt64.not_lt.mp hlt)
    rw [UInt32.toNat_toUInt64] at hlost
    refine ⟨hlost, .inl ⟨?_, .inl rfl⟩⟩
    rw [reach_of_le le_rfl]
    exact Nat.sub_add_cancel hlost

theorem narrow_le (tries : UInt64) : (narrow tries).toNat ≤ tries.toNat := by
  have hmod : tries.toUInt32.toNat ≤ tries.toNat := by
    rw [UInt64.toNat_toUInt32]
    exact Nat.mod_le _ _
  change (if (0 : Int32) ≤ _ then tries.toUInt32.toInt32 else 0).toInt64.toUInt64.toNat ≤ _
  split
  · next hpos =>
    have hpos' : (0 : Int64) ≤ tries.toUInt32.toInt32.toInt64 := by
      rw [Int64.le_iff_toInt_le, Int32.toInt_toInt64]
      exact Int32.le_iff_toInt_le.mp hpos
    have hself := Int32.toNat_toUInt32_of_le hpos
    rw [UInt32.toUInt32_toInt32] at hself
    rwa [Int64.toNat_toUInt64_of_le hpos', Int32.toNatClampNeg_toInt64, ← hself]
  · exact Nat.zero_le _

/-- The percent that a death shows, of the requirement of the own level, is also the one of the
next requirement. -/
def Shows (req : UInt16 → UInt64) (s : Skill) (lost : UInt32) : Prop :=
  ∀ l t, Remains req s lost.toNat l t → req (.ofNat l) < req (.ofNat (l + 1)) →
    getPercentLevel (narrow (.ofNat t)) (req (.ofNat l)) =
      getPercentLevel (narrow (.ofNat t)) (req (.ofNat (l + 1)))

theorem right_death_iff {deathLoss : UInt64 → UInt32} (hs : Right req s) :
    Right req (s.death req deathLoss) ↔ Shows req s (deathLoss (s.sumSkillTries req)) := by
  obtain ⟨hle, hremains⟩ := lose_remains req s (deathLoss (s.sumSkillTries req))
  unfold death
  generalize s.lose req (deathLoss (s.sumSkillTries req)) = r at *
  obtain ⟨q, lost⟩ := r
  dsimp only at *
  have htries : q.tries - lost.toUInt64 = .ofNat (q.tries.toNat - lost.toNat) := by
    rw [UInt64.ofNat_sub hle, UInt64.ofNat_toNat, ← UInt32.toNat_toUInt64,
      UInt64.ofNat_toNat]
  have hlevel : UInt16.ofNat (q.level.toNat + 1) = q.level + 1 := by
    rw [UInt16.ofNat_add, UInt16.ofNat_toNat]
    rfl
  have hself : UInt16.ofNat q.level.toNat = q.level := UInt16.ofNat_toNat
  rw [htries]
  constructor
  · intro h l t hremains'
    obtain ⟨rfl, rfl⟩ := hremains.unique hremains'
    rw [hself, hlevel]
    exact fun hreach => (h hreach).1
  · intro h hreach
    have hshow := h _ _ hremains
    have hlt := hremains.lt hs
    rw [hself, hlevel] at hshow hlt
    refine ⟨hshow hreach, ?_⟩
    rw [UInt64.lt_iff_toNat_lt]
    refine (narrow_le _).trans_lt (lt_of_le_of_lt ?_ (hlt hreach))
    rw [UInt64.toNat_ofNat']
    exact Nat.mod_le _ _

/-- A login shows the percent; only tries that meet the requirement exactly are kept. -/
theorem right_load_iff {level : UInt16} {tries : UInt64} :
    Right req (load req level tries) ↔ (req level < req (level + 1) → tries ≠ req (level + 1)) := by
  refine forall_congr' fun hreach => ?_
  have hpos : 0 < req (level + 1) := UInt64.lt_of_le_of_lt UInt64.zero_le hreach
  rw [load, and_iff_right rfl]
  dsimp only
  split
  · next hlt => exact iff_of_true hpos fun h => UInt64.lt_irrefl _ (h ▸ hlt)
  · next hle =>
    exact ⟨fun hlt h => UInt64.lt_irrefl _ (h ▸ hlt), UInt64.lt_of_le_of_ne (UInt64.not_lt.mp hle)⟩

end Skill

namespace Skills

variable {req : SkillId → UInt16 → UInt64} {skills : Skills}

/-- A death shows the percent of the next requirement for every skill, a login loads no tries
that meet it exactly. -/
def Keeps (req : SkillId → UInt16 → UInt64) (skills : Skills) : Action → Prop
  | .addSkillAdvance _ _ _ => True
  | .death deathLoss => ∀ skill,
    (skills skill).Shows (req skill) (deathLoss ((skills skill).sumSkillTries (req skill)))
  | .load level tries => ∀ skill, req skill (level skill) < req skill (level skill + 1) →
    tries skill ≠ req skill (level skill + 1)

theorem allRight_step {a : Action} (h : AllRight req skills) :
    AllRight req (step req skills a) ↔ Keeps req skills a := by
  cases a with
  | addSkillAdvance skill count onGain =>
    refine iff_true_intro fun other => ?_
    by_cases heq : other = skill
    · subst heq
      rw [step, Function.update_self]
      exact (h other).addSkillAdvance
    · rw [step, Function.update_of_ne heq]
      exact h other
  | death deathLoss => exact forall_congr' fun skill => Skill.right_death_iff (h skill)
  | load level tries => exact forall_congr' fun skill => Skill.right_load_iff

/-- Along a run every skill shows the way to its next level, exactly if every death and every
login keep it so. -/
theorem allRight_run_iff {actions : List Action} (h : AllRight req skills) :
    (∀ n, AllRight req ((actions.take n).foldl (step req) skills)) ↔
      Run.Steps (step req) (Keeps req) skills actions :=
  Run.forall_take_iff (I := fun _ => True) (fun _ _ _ _ => trivial)
    (fun _ _ _ h => allRight_step h) trivial h

instance (req : SkillId → UInt16 → UInt64) (skills : Skills) :
    Decidable (AllRight req skills) :=
  inferInstanceAs (Decidable (∀ skill, (skills skill).Right (req skill)))

/-- The requirements without a vocation for the levels 10 and 11, and for more of the sword. -/
def noVocation (skill : SkillId) (level : UInt16) : UInt64 :=
  if level ≤ 10 then [33, 25, 25, 25, 15, 66, 18].getD skill 0
  else if level = 11 then [50, 50, 50, 50, 30, 100, 20].getD skill 0
  else if skill = 2 ∧ level < 60 then 25 <<< (level.toUInt64 - 10) else 0

/-- A sword fighter of level 12 who has just reached it. -/
def swordFighter : Action :=
  .load (fun skill => if skill = 2 then 12 else 10) fun _ => 0

theorem allRight_run_swordFighter :
    (∀ n, AllRight noVocation
      (([.addSkillAdvance 2 30 id, swordFighter].take n).foldl (step noVocation) fun _ => {})) ↔
      Run.Steps (step noVocation) (Keeps noVocation) (fun _ => {})
        [.addSkillAdvance 2 30 id, swordFighter] :=
  allRight_run_iff (by decide)

/-- A sword fighter halfway from level 11 to level 12. -/
def halfway : Skills := fun skill =>
  if skill = 2 then { level := 11, tries := 50, percent := 50 } else {}

/-- A death that takes five of the hundred tries. -/
def smallLoss : Action := .death fun sum => (sum / 20).toUInt32

theorem death_shows_own_level :
    AllRight noVocation halfway ∧ ¬ AllRight noVocation (step noVocation halfway smallLoss) := by
  refine ⟨by decide, fun h => ?_⟩
  have hsword := h 2
  simp only [step, smallLoss, Skill.death] at hsword
  rw [Skill.lose] at hsword
  revert hsword
  decide

end Skills

end OTServBR.Player
