import Mathlib.Data.UInt

/-! # Progress in percent

Levels and skills show how much of the way to the next level a player has made.
-/

namespace OTServBR.Player

def getPercentLevel (count nextLevelCount : UInt64) : UInt8 :=
  if nextLevelCount = 0 then 0
  else
    let result := (count * 100 / nextLevelCount).toUInt8
    if 100 < result then 0 else result

/-- Below the requirement the percent is the rounded ratio, unless the product wraps. -/
theorem getPercentLevel_eq {count nextLevelCount : UInt64} (hlt : count < nextLevelCount)
    (hbound : 100 * nextLevelCount.toNat < 2 ^ 64) :
    (getPercentLevel count nextLevelCount).toNat = 100 * count.toNat / nextLevelCount.toNat := by
  rw [UInt64.lt_iff_toNat_lt] at hlt
  have hquot : (count * 100 / nextLevelCount).toNat = 100 * count.toNat / nextLevelCount.toNat := by
    rw [UInt64.toNat_div, UInt64.toNat_mul, Nat.mod_eq_of_lt, mul_comm]
    · rfl
    · change count.toNat * 100 < 2 ^ 64
      omega
  have hsmall : 100 * count.toNat / nextLevelCount.toNat < 100 := by
    rw [Nat.div_lt_iff_lt_mul (by omega)]
    omega
  have hresult : (count * 100 / nextLevelCount).toUInt8.toNat =
      100 * count.toNat / nextLevelCount.toNat := by
    rw [UInt64.toNat_toUInt8, hquot, Nat.mod_eq_of_lt (by omega)]
  have hpos : nextLevelCount ≠ 0 := by
    rintro rfl
    simp at hlt
  have hle : ¬ 100 < (count * 100 / nextLevelCount).toUInt8 := by
    rw [UInt8.lt_iff_toNat_lt, hresult, not_lt]
    exact hsmall.le
  simp only [getPercentLevel, if_neg hpos, if_neg hle, hresult]

end OTServBR.Player
