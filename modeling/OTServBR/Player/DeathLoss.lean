import Mathlib.Algebra.BigOperators.Intervals
import OTServBR.Player.Magic

/-! # What a death takes

A loss goes down level by level. The magic level loses exactly the mana that was
computed. A skill loses exactly the tries, unless the tries that remain do not
fit into a signed number of 32 bits.
-/

namespace OTServBR.Player

namespace Skill

variable {req : UInt16 → UInt64} {s : Skill}

/-- The tries of the levels from 11 on, together with those towards the next level. -/
def total (req : UInt16 → UInt64) (s : Skill) : ℕ :=
  s.tries.toNat + ∑ c ∈ Finset.Ioc 10 s.level.toNat, (req (.ofNat c)).toNat

theorem total_eq_reach : s.total req = s.reach req 10 := rfl

/-- The tries are cut to 32 bits, and those that look negative are lost. -/
theorem toNat_narrow (tries : UInt64) :
    (narrow tries).toNat = tries.toUInt32.toInt32.toNatClampNeg := by
  change (if (0 : Int32) ≤ _ then tries.toUInt32.toInt32 else 0).toInt64.toUInt64.toNat = _
  split
  · next hpos =>
    have hpos' : (0 : Int64) ≤ tries.toUInt32.toInt32.toInt64 := by
      rw [Int64.le_iff_toInt_le, Int32.toInt_toInt64]
      exact Int32.le_iff_toInt_le.mp hpos
    rw [Int64.toNat_toUInt64_of_le hpos', Int32.toNatClampNeg_toInt64]
  · next hneg =>
    have hlt : tries.toUInt32.toInt32.toInt < 0 := by
      rw [Int32.le_iff_toInt_le, not_le] at hneg
      exact hneg
    exact (Int.toNat_of_nonpos hlt.le).symm

theorem narrow_of_lt {tries : UInt64} (h : tries.toNat < 2 ^ 31) : narrow tries = tries := by
  have hmod : tries.toUInt32.toNat = tries.toNat := by
    rw [UInt64.toNat_toUInt32, Nat.mod_eq_of_lt (by omega)]
  have hint : tries.toUInt32.toInt32.toInt = tries.toNat := by
    rw [← hmod]
    refine BitVec.toInt_eq_toNat_of_lt ?_
    change 2 * tries.toUInt32.toNat < _
    omega
  rw [← UInt64.toNat_inj, toNat_narrow]
  change tries.toUInt32.toInt32.toInt.toNat = _
  rw [hint]
  exact Int.toNat_natCast _

theorem narrow_lt (tries : UInt64) : (narrow tries).toNat < 2 ^ 31 := by
  rw [toNat_narrow]
  exact Int32.toNatClampNeg_lt _

/-- The tries that remain make up the old total without the loss. -/
theorem Remains.total {lost l t : ℕ} (h : Remains req s lost l t) (hlost : lost ≤ s.total req) :
    t + ∑ c ∈ Finset.Ioc 10 l, (req (.ofNat c)).toNat + lost = s.total req := by
  rw [total_eq_reach] at hlost ⊢
  obtain ⟨hsum, rfl | ⟨hten, hlt, -⟩⟩ | ⟨-, -, hmore⟩ := h
  · rw [reach_of_le le_rfl] at hsum
    rw [reach]
    omega
  · have hsplit := Finset.sum_Ioc_consecutive (fun c => (req (.ofNat c)).toNat) hten hlt.le
    rw [reach] at hsum ⊢
    omega
  · omega

/-- The level that a loss leaves counts fewer than `2 ^ 31` tries. -/
def FewRemain (req : UInt16 → UInt64) (s : Skill) (lost : ℕ) : Prop :=
  ∀ l t, Remains req s lost l t → t < 2 ^ 31

theorem total_loseTries_iff {lost : UInt32} (hlost : lost.toNat ≤ s.total req) :
    (s.loseTries req lost).total req + lost.toNat = s.total req ↔ FewRemain req s lost.toNat := by
  obtain ⟨hle, hremains⟩ := lose_remains req s lost
  have htotal := hremains.total hlost
  rw [loseTries]
  generalize s.lose req lost = r at *
  obtain ⟨q, rest⟩ := r
  dsimp only at *
  have htries : (q.tries - rest.toUInt64).toNat = q.tries.toNat - rest.toNat := by
    rw [UInt64.toNat_sub_of_le, UInt32.toNat_toUInt64]
    rw [UInt64.le_iff_toNat_le, UInt32.toNat_toUInt64]
    exact hle
  rw [Skill.total]
  dsimp only
  constructor
  · intro hsum l t hremains'
    obtain ⟨rfl, rfl⟩ := hremains.unique hremains'
    have hlt := narrow_lt (q.tries - rest.toUInt64)
    omega
  · intro hfew
    rw [narrow_of_lt (by rw [htries]; exact hfew _ _ hremains), htries]
    exact htotal

end Skill

namespace Magic

variable {req : UInt32 → UInt64} {m : Magic} {lost : UInt64}

/-- The mana of the levels from 1 on, together with that towards the next level. -/
def total (req : UInt32 → UInt64) (m : Magic) : ℕ :=
  m.manaSpent.toNat + ∑ c ∈ Finset.Ioc 0 m.magLevel.toNat, (req (.ofNat c)).toNat

/-- The loop exchanges mana for levels, and ends where the rest of the loss is at hand. -/
theorem lose_spec (hlost : lost.toNat ≤ m.total req) :
    (m.lose req lost).2.toNat ≤ (m.lose req lost).1.manaSpent.toNat ∧
      (m.lose req lost).1.total req + lost.toNat = m.total req + (m.lose req lost).2.toNat := by
  fun_induction lose req m lost with
  | case1 m lost h ih =>
    obtain ⟨hlt, hpos⟩ := h
    rw [UInt64.lt_iff_toNat_lt] at hlt
    rw [UInt32.lt_iff_toNat_lt] at hpos
    change 0 < _ at hpos
    have hrest : (lost - m.manaSpent).toNat = lost.toNat - m.manaSpent.toNat :=
      UInt64.toNat_sub_of_le _ _ (UInt64.le_iff_toNat_le.mpr hlt.le)
    have hlevel : (m.magLevel - 1).toNat = m.magLevel.toNat - 1 :=
      UInt32.toNat_sub_of_le _ _ (UInt32.le_iff_toNat_le.mpr hpos)
    have hself : UInt32.ofNat m.magLevel.toNat = m.magLevel := UInt32.ofNat_toNat
    have hsum : m.total req = m.manaSpent.toNat +
        total req { m with manaSpent := req m.magLevel, magLevel := m.magLevel - 1 } := by
      obtain ⟨n, hn⟩ : ∃ n, m.magLevel.toNat = n + 1 := ⟨_, (Nat.sub_add_cancel hpos).symm⟩
      rw [hn] at hself
      rw [total, total]
      dsimp only
      rw [hlevel, hn, Nat.add_sub_cancel, Finset.sum_Ioc_succ_top (Nat.zero_le n), hself]
      omega
    obtain ⟨hle, heq⟩ := ih (by omega)
    exact ⟨hle, by omega⟩
  | case2 m lost h =>
    refine ⟨?_, rfl⟩
    rw [not_and_or, UInt64.not_lt, UInt64.le_iff_toNat_le, UInt32.not_lt] at h
    rcases h with h | h
    · exact h
    · have hzero : m.magLevel.toNat = 0 := Nat.le_zero.mp (UInt32.le_iff_toNat_le.mp h)
      rw [total, hzero] at hlost
      exact hlost

theorem total_loseMana (hlost : lost.toNat ≤ m.total req) :
    (m.loseMana req lost).total req + lost.toNat = m.total req := by
  obtain ⟨hle, htotal⟩ := lose_spec hlost
  rw [loseMana]
  generalize m.lose req lost = r at *
  obtain ⟨q, rest⟩ := r
  dsimp only at *
  have hspent : (q.manaSpent - rest).toNat = q.manaSpent.toNat - rest.toNat :=
    UInt64.toNat_sub_of_le _ _ (UInt64.le_iff_toNat_le.mpr hle)
  rw [total] at htotal
  rw [total]
  dsimp only
  omega

end Magic

/-- A death takes the computed tries and the computed mana, and the mana does not underflow. -/
structure ExactLoss (req : UInt16 → UInt64) (s : Skill) (lost : ℕ) (reqMana : UInt32 → UInt64)
    (m : Magic) (lostMana : UInt64) : Prop where
  skill : ∃ lostTries, Skill.lostSkillTries lost = some lostTries ∧
    (s.loseTries req lostTries).total req + lost = s.total req
  magic : (m.loseMana reqMana lostMana).total reqMana + lostMana.toNat = m.total reqMana
  noUnderflow : (m.lose reqMana lostMana).2 ≤ (m.lose reqMana lostMana).1.manaSpent

theorem exactLoss_iff {req : UInt16 → UInt64} {s : Skill} {lost : ℕ} {reqMana : UInt32 → UInt64}
    {m : Magic} {lostMana : UInt64} (hlost : lost ≤ s.total req)
    (hlostMana : lostMana.toNat ≤ m.total reqMana) :
    ExactLoss req s lost reqMana m lostMana ↔ lost < 2 ^ 32 ∧ s.FewRemain req lost := by
  constructor
  · rintro ⟨⟨lostTries, hcast, hsum⟩, -, -⟩
    rw [Skill.lostSkillTries] at hcast
    split at hcast
    · next hlt =>
      rw [Option.some.injEq] at hcast
      subst hcast
      have htries : (UInt32.ofNat lost).toNat = lost := UInt32.toNat_ofNat_of_lt' hlt
      refine ⟨hlt, ?_⟩
      have hfew := (Skill.total_loseTries_iff (htries.symm ▸ hlost)).mp (htries.symm ▸ hsum)
      rwa [htries] at hfew
    · cases hcast
  · rintro ⟨hlt, hfew⟩
    have htries : (UInt32.ofNat lost).toNat = lost := UInt32.toNat_ofNat_of_lt' hlt
    have hsum := (Skill.total_loseTries_iff (htries.symm ▸ hlost)).mpr (htries.symm ▸ hfew)
    rw [htries] at hsum
    exact ⟨⟨.ofNat lost, if_pos hlt, hsum⟩, Magic.total_loseMana hlostMana,
      UInt64.le_iff_toNat_le.mpr (Magic.lose_spec hlostMana).1⟩

/-- A fighter of level 10 with few tries and a mage of magic level 1, who loses the level. -/
theorem exactLoss_low : ExactLoss (fun _ => 50) { tries := 30 } 5 (fun _ => 1600)
    { magLevel := 1, manaSpent := 100 } 400 := by
  have htotal : Skill.total (fun _ => 50) { tries := 30 } = 30 := by decide
  refine (exactLoss_iff (by decide) (by decide)).mpr ⟨by decide, fun l t hremains => ?_⟩
  have hsum := hremains.total (by rw [htotal]; decide)
  rw [htotal] at hsum
  omega

/-- A fighter who has `2 ^ 31` tries of a long level loses them all in a death that costs
nothing. -/
theorem not_exactLoss_many : ¬ ExactLoss (fun _ => 2 ^ 33) { tries := 2 ^ 31 } 0 (fun _ => 1600)
    {} 0 := by
  rintro ⟨⟨lostTries, hcast, hsum⟩, -, -⟩
  cases hcast
  have hfew := (Skill.total_loseTries_iff (by decide)).mp hsum
  have hlt : 2 ^ 31 < 2 ^ 31 := hfew 10 (2 ^ 31) (.inl ⟨by decide, .inl rfl⟩)
  exact Nat.lt_irrefl _ hlt

end OTServBR.Player
