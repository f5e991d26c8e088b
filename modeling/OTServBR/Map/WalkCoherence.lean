import Mathlib.Algebra.Order.Ring.Int
import Mathlib.Tactic.Ring
import OTServBR.Map.WalkCache

/-! # Coherence of the walk cache

After a step the cache shows each tile of the window, unless the step went
diagonally to the south: then the first row still shows the tiles as they lay
before the step, and the last one those that lie one further on.
-/

namespace OTServBR

namespace WalkCache

open Sweep

theorem mapWalkWidth_eq : mapWalkWidth = 23 := rfl
theorem mapWalkHeight_eq : mapWalkHeight = 23 := rfl
theorem maxWalkCacheWidth_eq : maxWalkCacheWidth = 11 := rfl
theorem maxWalkCacheHeight_eq : maxWalkCacheHeight = 11 := rfl

namespace Cache

variable {cache : Cache} {tile : Bool} {t : ℤ → ℤ → Bool} {dx dy : ℤ} {i j : ℕ}

theorem updateTileCache_apply (hi : i < 23) (hj : j < 23) :
    cache.updateTileCache tile dx dy i j =
      if dx = j - 11 ∧ dy = i - 11 then tile else cache i j := by
  rw [updateTileCache, maxWalkCacheWidth_eq, maxWalkCacheHeight_eq]
  by_cases hin : dx.natAbs ≤ 11 ∧ dy.natAbs ≤ 11
  · rw [if_pos hin]
    by_cases hy : i = (((11 : ℕ) : ℤ) + dy).toNat
    · subst hy
      rw [Function.update_self]
      by_cases hx : j = (((11 : ℕ) : ℤ) + dx).toNat
      · subst hx
        rw [Function.update_self, if_pos (by omega)]
      · rw [Function.update_of_ne hx, if_neg (by omega)]
    · rw [Function.update_of_ne hy, if_neg (by omega)]
  · rw [if_neg hin, if_neg (by omega)]

theorem refresh_apply (hi : i < 23) (hj : j < 23) (offsets : List (ℤ × ℤ)) :
    cache.refresh t offsets i j =
      if ((j : ℤ) - 11, (i : ℤ) - 11) ∈ offsets then t (j - 11) (i - 11) else cache i j := by
  induction offsets generalizing cache with
  | nil => rfl
  | cons d offsets ih =>
    rw [refresh, List.foldl_cons, ← refresh, ih, updateTileCache_apply hi hj]
    by_cases hd : ((j : ℤ) - 11, (i : ℤ) - 11) = d
    · subst hd
      simp
    · have hne : ¬ (d.1 = j - 11 ∧ d.2 = i - 11) := by
        rintro ⟨h1, h2⟩
        exact hd (Prod.ext h1.symm h2.symm)
      simp [List.mem_cons, hd, hne]

theorem mem_widths : dx ∈ widths ↔ -11 ≤ dx ∧ dx ≤ 11 := by
  simp only [widths, mapWalkWidth_eq, maxWalkCacheWidth_eq, List.mem_map, List.mem_range]
  constructor
  · rintro ⟨x, hx, rfl⟩
    omega
  · rintro h
    exact ⟨(dx + 11).toNat, by omega, by omega⟩

theorem mem_heights : dy ∈ heights ↔ -11 ≤ dy ∧ dy ≤ 11 := by
  simp only [heights, mapWalkHeight_eq, maxWalkCacheHeight_eq, List.mem_map, List.mem_range]
  constructor
  · rintro ⟨y, hy, rfl⟩
    omega
  · rintro h
    exact ⟨(dy + 11).toNat, by omega, by omega⟩

theorem shiftSouth_apply : cache.shiftSouth i j =
    if 1 ≤ i ∧ i ≤ 22 then cache (i - 1) j else cache i j := by
  rw [shiftSouth, mapWalkHeight_eq, shiftUp_apply]
  split <;> rfl

theorem shiftNorth_apply : cache.shiftNorth i j =
    if i < 22 then cache (i + 1) j else cache i j := by
  rw [shiftNorth, mapWalkHeight_eq, shiftDown_apply]
  split <;> rfl

theorem shiftRows_apply {shift : (ℕ → Bool) → ℕ → Bool} (hi : i < 23) (n : ℕ) :
    cache.shiftRows shift n i j = if n ≤ i then shift (cache i) j else cache i j := by
  have hstart : (if (n : ℤ) < 0 then 0 else if 0 < (n : ℤ) then (n : ℤ) else 0) = n := by omega
  rw [shiftRows, hstart, if_neg (by omega), mapWalkHeight_eq, sweep_range']
  by_cases hn : n ≤ i
  · rw [if_pos hn, if_pos (by omega)]
  · rw [if_neg hn, if_neg (by omega)]

theorem shiftWest_apply (hi : i < 23) (n : ℕ) :
    cache.shiftWest n i j = if n ≤ i ∧ j < 22 then cache i (j + 1) else cache i j := by
  rw [shiftWest, mapWalkWidth_eq, shiftRows_apply hi, shiftDown_apply]
  grind

theorem shiftEast_apply (hi : i < 23) (n : ℕ) :
    cache.shiftEast n i j = if n ≤ i ∧ 1 ≤ j ∧ j ≤ 22 then cache i (j - 1) else cache i j := by
  rw [shiftEast, mapWalkWidth_eq, shiftRows_apply hi, shiftUp_apply]
  grind

end Cache

/-! ## What a step shows -/

section Tiles

variable (walkable : Position → Bool) (z : UInt8)

/-- The tile that is looked up at some coordinates. -/
def seen (x y : ℤ) : Bool := walkable ⟨.ofInt x, .ofInt y, z⟩

/-- The walkability of the tile at some coordinates; there is none outside the map. -/
def tileAt (x y : ℤ) : Bool :=
  (0 ≤ x ∧ x < 2 ^ 16 ∧ 0 ≤ y ∧ y < 2 ^ 16) && seen walkable z x y

end Tiles

namespace Creature

variable {walkable : Position → Bool} {c : Creature} {d : Direction} {i j : ℕ}

/-- A cell by its offset from the creature. -/
def cell (c : Creature) (dx dy : ℤ) : Bool :=
  c.localMapCache (maxWalkCacheHeight + dy).toNat (maxWalkCacheWidth + dx).toNat

/-- Every cell but the creature's own shows the walkability of its tile. -/
def Coherent (walkable : Position → Bool) (c : Creature) : Prop :=
  ∀ dx dy : ℤ, dx.natAbs ≤ maxWalkCacheWidth → dy.natAbs ≤ maxWalkCacheHeight →
    ¬ (dx = 0 ∧ dy = 0) →
      c.cell dx dy =
        tileAt walkable c.position.z (c.position.x.toNat + dx) (c.position.y.toNat + dy)

theorem coherent_iff : c.Coherent walkable ↔ ∀ i j : ℕ, i < 23 → j < 23 → ¬ (i = 11 ∧ j = 11) →
    c.localMapCache i j = tileAt walkable c.position.z (c.position.x.toNat + (j - 11))
      (c.position.y.toNat + (i - 11)) := by
  constructor
  · rintro h i j hi hj hne
    have hcell := h (j - 11) (i - 11) (by rw [maxWalkCacheWidth_eq]; omega)
      (by rw [maxWalkCacheHeight_eq]; omega) (by omega)
    rw [cell, maxWalkCacheHeight_eq, maxWalkCacheWidth_eq] at hcell
    rwa [show (((11 : ℕ) : ℤ) + (i - 11)).toNat = i by omega,
      show (((11 : ℕ) : ℤ) + (j - 11)).toNat = j by omega] at hcell
  · rintro h dx dy hdx hdy hne
    rw [maxWalkCacheWidth_eq] at hdx
    rw [maxWalkCacheHeight_eq] at hdy
    have hcell := h (11 + dy).toNat (11 + dx).toNat (by omega) (by omega) (by omega)
    rwa [show (((11 + dx).toNat : ℤ) - 11) = dx by omega,
      show (((11 + dy).toNat : ℤ) - 11) = dy by omega] at hcell

/-- The condition on a step: the tiles that come into the window are looked up inside the map or
found not walkable, and a diagonal step to the south meets rows at the edges in which neighbours
agree. -/
structure Safe (walkable : Position → Bool) (pos : Position) (sx sy : ℤ) : Prop where
  column : sx ≠ 0 → ∀ dy : ℤ, dy.natAbs ≤ maxWalkCacheHeight →
    seen walkable pos.z (pos.x.toNat + maxWalkCacheWidth * sx) (pos.y.toNat + dy) =
      tileAt walkable pos.z (pos.x.toNat + maxWalkCacheWidth * sx) (pos.y.toNat + dy)
  row : sy ≠ 0 → ¬ (sx ≠ 0 ∧ sy = 1) → ∀ dx : ℤ, dx.natAbs ≤ maxWalkCacheWidth →
    seen walkable pos.z (pos.x.toNat + dx) (pos.y.toNat + maxWalkCacheHeight * sy) =
      tileAt walkable pos.z (pos.x.toNat + dx) (pos.y.toNat + maxWalkCacheHeight * sy)
  last : sx ≠ 0 → sy = 1 → ∀ dx : ℤ, dx.natAbs ≤ maxWalkCacheWidth →
    (dx + sx).natAbs ≤ maxWalkCacheWidth →
    seen walkable pos.z (pos.x.toNat + dx + sx) (pos.y.toNat + maxWalkCacheHeight) =
      tileAt walkable pos.z (pos.x.toNat + dx) (pos.y.toNat + maxWalkCacheHeight)
  first : sx ≠ 0 → sy = 1 → ∀ dx : ℤ, dx.natAbs ≤ maxWalkCacheWidth →
    (dx + sx).natAbs ≤ maxWalkCacheWidth →
    tileAt walkable pos.z (pos.x.toNat + dx - sx) (pos.y.toNat - maxWalkCacheHeight) =
      tileAt walkable pos.z (pos.x.toNat + dx) (pos.y.toNat - maxWalkCacheHeight)

theorem getTile_eq (dx dy : ℤ) : c.getTile walkable dx dy =
    seen walkable c.position.z (c.position.x.toNat + dx) (c.position.y.toNat + dy) := rfl

theorem refresh_position (offsets : List (ℤ × ℤ)) :
    (c.refresh walkable offsets).position = c.position := rfl

theorem refresh_cell (hi : i < 23) (hj : j < 23) (offsets : List (ℤ × ℤ)) :
    (c.refresh walkable offsets).localMapCache i j =
      if ((j : ℤ) - 11, (i : ℤ) - 11) ∈ offsets then c.getTile walkable (j - 11) (i - 11)
      else c.localMapCache i j :=
  Cache.refresh_apply hi hj offsets

theorem updateTileCache_cell {tile : Bool} {pos : Position} (hz : pos.z = c.position.z)
    (hi : i < 23) (hj : j < 23) : (c.updateTileCache tile pos).localMapCache i j =
      if (pos.x.toNat : ℤ) - c.position.x.toNat = j - 11 ∧
          (pos.y.toNat : ℤ) - c.position.y.toNat = i - 11 then tile
      else c.localMapCache i j := by
  rw [updateTileCache, if_pos hz]
  exact Cache.updateTileCache_apply hi hj

section Move

variable {oldPos newPos : Position} {sx sy : ℤ}

theorem moveRows_position : (c.moveRows walkable oldPos newPos).position = c.position := by
  unfold moveRows
  split_ifs <;> rfl

theorem moveColumns_position : (c.moveColumns walkable oldPos newPos).position = c.position := by
  unfold moveColumns
  dsimp only
  split_ifs <;> rfl

theorem moveRows_isMapLoaded :
    (c.moveRows walkable oldPos newPos).isMapLoaded = c.isMapLoaded := by
  unfold moveRows
  split_ifs <;> rfl

theorem moveColumns_isMapLoaded :
    (c.moveColumns walkable oldPos newPos).isMapLoaded = c.isMapLoaded := by
  unfold moveColumns
  dsimp only
  split_ifs <;> rfl

theorem moveRows_cell (hy : (newPos.y.toNat : ℤ) = oldPos.y.toNat + sy) (hsy : sy.natAbs ≤ 1)
    (hi : i < 23) (hj : j < 23) :
    (c.moveRows walkable oldPos newPos).localMapCache i j =
      if sy ≠ 0 ∧ (i : ℤ) = 11 + 11 * sy then c.getTile walkable (j - 11) (i - 11)
      else c.localMapCache (i + sy).toNat j := by
  unfold moveRows
  simp only [UInt16.lt_iff_toNat_lt, maxWalkCacheHeight_eq]
  obtain rfl | rfl | rfl : sy = -1 ∨ sy = 0 ∨ sy = 1 := by omega
  · rw [if_pos (by omega), refresh_cell hi hj]
    have hmem : ((j : ℤ) - 11, (i : ℤ) - 11) ∈ widths.map (fun x => (x, -((11 : ℕ) : ℤ))) ↔
        i = 0 := by
      simp [Cache.mem_widths]
      omega
    simp only [hmem, Cache.shiftSouth_apply]
    by_cases hzero : i = 0
    · rw [if_pos hzero, if_pos (by omega)]
      rfl
    · rw [if_neg hzero, if_pos (by omega), if_neg (by omega)]
      congr 1
      omega
  · rw [if_neg (by omega), if_neg (by omega), if_neg (by omega), Int.add_zero, Int.toNat_natCast]
  · rw [if_neg (by omega), if_pos (by omega), refresh_cell hi hj]
    have hmem : ((j : ℤ) - 11, (i : ℤ) - 11) ∈ widths.map (fun x => (x, ((11 : ℕ) : ℤ))) ↔
        i = 22 := by
      simp [Cache.mem_widths]
      omega
    simp only [hmem, Cache.shiftNorth_apply]
    by_cases hlast : i = 22
    · rw [if_pos hlast, if_pos (by omega)]
      rfl
    · rw [if_neg hlast, if_pos (by omega), if_neg (by omega)]
      congr 1

theorem moveColumns_cell (hx : (newPos.x.toNat : ℤ) = oldPos.x.toNat + sx) (hsx : sx.natAbs ≤ 1)
    (hy : (newPos.y.toNat : ℤ) = oldPos.y.toNat + sy) (hi : i < 23) (hj : j < 23) :
    (c.moveColumns walkable oldPos newPos).localMapCache i j =
      if sx ≠ 0 ∧ (j : ℤ) = 11 + 11 * sx then c.getTile walkable (j - 11) (i - 11)
      else if sy.natAbs ≤ i then c.localMapCache i (j + sx).toNat
      else c.localMapCache i j := by
  have hdist : oldPos.getDistanceY newPos = sy.natAbs := by
    rw [Position.getDistanceY, hy]
    omega
  unfold moveColumns
  simp only [UInt16.lt_iff_toNat_lt, maxWalkCacheWidth_eq, hdist]
  obtain rfl | rfl | rfl : sx = -1 ∨ sx = 0 ∨ sx = 1 := by omega
  · rw [if_neg (by omega), if_pos (by omega), refresh_cell hi hj]
    have hmem : ((j : ℤ) - 11, (i : ℤ) - 11) ∈ heights.map (fun y => (-((11 : ℕ) : ℤ), y)) ↔
        j = 0 := by
      simp [Cache.mem_heights]
      omega
    simp only [hmem, Cache.shiftEast_apply hi]
    by_cases hzero : j = 0
    · rw [if_pos hzero, if_pos (by omega)]
      rfl
    · have hedge : ¬ ((-1 : ℤ) ≠ 0 ∧ (j : ℤ) = 11 + 11 * -1) := by omega
      rw [if_neg hzero, if_neg hedge]
      by_cases hrow : sy.natAbs ≤ i
      · rw [if_pos (by omega), if_pos hrow]
        congr 1
        omega
      · rw [if_neg (by omega), if_neg hrow]
  · rw [if_neg (by omega), if_neg (by omega), if_neg (by omega), Int.add_zero, Int.toNat_natCast,
      ite_self]
  · rw [if_pos (by omega), refresh_cell hi hj]
    have hmem : ((j : ℤ) - 11, (i : ℤ) - 11) ∈ heights.map (fun y => (((11 : ℕ) : ℤ), y)) ↔
        j = 22 := by
      simp [Cache.mem_heights]
      omega
    simp only [hmem, Cache.shiftWest_apply hi]
    by_cases hlast : j = 22
    · rw [if_pos hlast, if_pos (by omega)]
      rfl
    · have hedge : ¬ ((1 : ℤ) ≠ 0 ∧ (j : ℤ) = 11 + 11 * 1) := by omega
      rw [if_neg hlast, if_neg hedge]
      by_cases hrow : sy.natAbs ≤ i
      · rw [if_pos (by omega), if_pos hrow]
        congr 1
      · rw [if_neg (by omega), if_neg hrow]

end Move

theorem toNat_getNextPosition (h : d.inMap c.position) :
    ((getNextPosition d c.position).x.toNat : ℤ) = c.position.x.toNat + d.offset.1 ∧
      ((getNextPosition d c.position).y.toNat : ℤ) = c.position.y.toNat + d.offset.2 := by
  obtain ⟨hx, hx', hy, hy'⟩ := h
  cases d <;> simp only [getNextPosition, Direction.offset] at * <;> constructor <;>
    simp [UInt16.toNat_add, UInt16.toNat_sub] <;> omega

theorem getNextPosition_z (d : Direction) (pos : Position) :
    (getNextPosition d pos).z = pos.z := by
  cases d <;> rfl

theorem offset_natAbs (d : Direction) : d.offset.1.natAbs ≤ 1 ∧ d.offset.2.natAbs ≤ 1 := by
  cases d <;> decide

theorem offset_ne (d : Direction) : ¬ (d.offset.1 = 0 ∧ d.offset.2 = 0) := by
  cases d <;> decide

theorem walk_eq (h : d.inMap c.position) (hloaded : c.isMapLoaded) :
    c.walk walkable d =
      (({ c with position := getNextPosition d c.position }.moveRows walkable c.position
        (getNextPosition d c.position)).moveColumns walkable c.position
          (getNextPosition d c.position)).updateTileCache (walkable c.position) c.position := by
  simp [walk, h, onCreatureMove, hloaded, getNextPosition_z]

theorem walk_position (h : d.inMap c.position) (hloaded : c.isMapLoaded) :
    (c.walk walkable d).position = getNextPosition d c.position := by
  rw [walk_eq h hloaded, updateTileCache]
  split <;> simp [moveColumns_position, moveRows_position]

theorem walk_isMapLoaded (h : d.inMap c.position) (hloaded : c.isMapLoaded) :
    (c.walk walkable d).isMapLoaded := by
  rw [walk_eq h hloaded, updateTileCache]
  split <;> simp [moveColumns_isMapLoaded, moveRows_isMapLoaded, hloaded]

theorem walk_cell (h : d.inMap c.position) (hloaded : c.isMapLoaded) (hi : i < 23) (hj : j < 23) :
    (c.walk walkable d).localMapCache i j =
      if (j : ℤ) - 11 = -d.offset.1 ∧ (i : ℤ) - 11 = -d.offset.2 then walkable c.position
      else if d.offset.1 ≠ 0 ∧ (j : ℤ) = 11 + 11 * d.offset.1 then
        seen walkable c.position.z ((c.position.x.toNat : ℤ) + d.offset.1 + (j - 11))
          ((c.position.y.toNat : ℤ) + d.offset.2 + (i - 11))
      else
        let j' : ℤ := if d.offset.2.natAbs ≤ i then j + d.offset.1 else j
        if d.offset.2 ≠ 0 ∧ (i : ℤ) = 11 + 11 * d.offset.2 then
          seen walkable c.position.z ((c.position.x.toNat : ℤ) + d.offset.1 + (j' - 11))
            ((c.position.y.toNat : ℤ) + d.offset.2 + (i - 11))
        else c.localMapCache (i + d.offset.2).toNat j'.toNat := by
  obtain ⟨hx, hy⟩ := toNat_getNextPosition h
  obtain ⟨hsx, hsy⟩ := offset_natAbs d
  have hz := getNextPosition_z d c.position
  rw [walk_eq h hloaded, updateTileCache_cell (by rw [moveColumns_position, moveRows_position, hz])
    hi hj, moveColumns_position, moveRows_position]
  have hown : (c.position.x.toNat : ℤ) - (getNextPosition d c.position).x.toNat = j - 11 ∧
      (c.position.y.toNat : ℤ) - (getNextPosition d c.position).y.toNat = i - 11 ↔
      (j : ℤ) - 11 = -d.offset.1 ∧ (i : ℤ) - 11 = -d.offset.2 := by omega
  refine if_congr hown rfl ?_
  rw [moveColumns_cell hx hsx hy hi hj, getTile_eq, moveRows_position]
  dsimp only
  rw [hx, hy, hz]
  refine if_ctx_congr Iff.rfl (fun _ => rfl) fun hcolumn => ?_
  split
  · have hj' : ((j : ℤ) + d.offset.1).toNat < 23 := by omega
    have hcast : (((j : ℤ) + d.offset.1).toNat : ℤ) = j + d.offset.1 := by omega
    rw [moveRows_cell hy hsy hi hj', getTile_eq, hcast]
    dsimp only
    rw [hx, hy, hz]
  · rw [moveRows_cell hy hsy hi hj, getTile_eq]
    dsimp only
    rw [hx, hy, hz, Int.toNat_natCast]

/-- The cell at an offset after a step, where the first row is not shifted to the side. -/
theorem walk_cell_offset (h : d.inMap c.position) (hloaded : c.isMapLoaded) {dx dy : ℤ}
    (hdx : dx.natAbs ≤ 11) (hdy : dy.natAbs ≤ 11) :
    (c.walk walkable d).cell dx dy =
      if dx = -d.offset.1 ∧ dy = -d.offset.2 then walkable c.position
      else if d.offset.1 ≠ 0 ∧ dx = 11 * d.offset.1 then
        seen walkable c.position.z ((c.position.x.toNat : ℤ) + d.offset.1 + dx)
          ((c.position.y.toNat : ℤ) + d.offset.2 + dy)
      else
        let dx' := if d.offset.2 ≠ 0 ∧ dy = -11 then dx else dx + d.offset.1
        if d.offset.2 ≠ 0 ∧ dy = 11 * d.offset.2 then
          seen walkable c.position.z ((c.position.x.toNat : ℤ) + d.offset.1 + dx')
            ((c.position.y.toNat : ℤ) + d.offset.2 + dy)
        else c.cell dx' (dy + d.offset.2) := by
  obtain ⟨hsx, hsy⟩ := offset_natAbs d
  have hi : (11 + dy).toNat < 23 := by omega
  have hj : (11 + dx).toNat < 23 := by omega
  have hi' : (((11 + dy).toNat : ℕ) : ℤ) = 11 + dy := by omega
  have hj' : (((11 + dx).toNat : ℕ) : ℤ) = 11 + dx := by omega
  rw [cell, maxWalkCacheHeight_eq, maxWalkCacheWidth_eq]
  refine (walk_cell h hloaded hi hj).trans ?_
  simp only [hi', hj', add_sub_cancel_left]
  refine if_congr Iff.rfl rfl (if_congr (by omega) rfl ?_)
  have hrow : d.offset.2.natAbs ≤ (11 + dy).toNat ↔ ¬ (d.offset.2 ≠ 0 ∧ dy = -11) := by omega
  simp only [hrow, ite_not, cell, maxWalkCacheHeight_eq, maxWalkCacheWidth_eq, Nat.cast_ofNat,
    add_assoc]
  refine if_congr (by omega) ?_ ?_
  · congr 2
    split <;> ring
  · congr 2
    split <;> ring

theorem tileAt_position (pos : Position) :
    tileAt walkable pos.z pos.x.toNat pos.y.toNat = walkable pos := by
  have hx := pos.x.toNat_lt
  have hy := pos.y.toNat_lt
  have hin : 0 ≤ (pos.x.toNat : ℤ) ∧ (pos.x.toNat : ℤ) < 2 ^ 16 ∧ 0 ≤ (pos.y.toNat : ℤ) ∧
      (pos.y.toNat : ℤ) < 2 ^ 16 := by omega
  rw [tileAt, seen, decide_eq_true hin, Bool.true_and, Position.ofInt_toNat, Position.ofInt_toNat]

section Step

variable (h : d.inMap c.position) (hloaded : c.isMapLoaded) (hc : c.Coherent walkable)

include h hloaded hc

theorem safe_of_coherent (hnext : (c.walk walkable d).Coherent walkable) :
    Safe walkable (getNextPosition d c.position) d.offset.1 d.offset.2 := by
  obtain ⟨hx, hy⟩ := toNat_getNextPosition h
  obtain ⟨hsx, hsy⟩ := offset_natAbs d
  rw [Coherent, walk_position h hloaded] at hnext
  simp only [maxWalkCacheWidth_eq, maxWalkCacheHeight_eq, hx, hy, getNextPosition_z] at hnext
  constructor <;> rw [getNextPosition_z, hx, hy] <;>
    simp only [maxWalkCacheWidth_eq, maxWalkCacheHeight_eq, Nat.cast_ofNat]
  · rintro hne dy hdy
    have hcell := hnext (11 * d.offset.1) dy (by omega) hdy (by omega)
    rwa [walk_cell_offset h hloaded (by omega) hdy, if_neg (by omega), if_pos (by omega)] at hcell
  · rintro hne hstraight dx hdx
    have hcell := hnext dx (11 * d.offset.2) hdx (by omega) (by omega)
    rw [walk_cell_offset h hloaded hdx (by omega), if_neg (by omega)] at hcell
    split at hcell
    case isTrue => exact hcell
    case isFalse hcolumn =>
      have hdx' : (if d.offset.2 ≠ 0 ∧ 11 * d.offset.2 = -11 then dx else dx + d.offset.1) =
          dx := by
        split <;> omega
      rw [if_pos (by omega), hdx'] at hcell
      exact hcell
  · rintro hne hsouth dx hdx hdx'
    have hcell := hnext dx 11 hdx (by omega) (by omega)
    rw [walk_cell_offset h hloaded hdx (by omega), if_neg (by omega), if_neg (by omega),
      if_neg (show ¬ (d.offset.2 ≠ 0 ∧ (11 : ℤ) = -11) by omega)] at hcell
    dsimp only at hcell
    rwa [if_pos (by omega), ← add_assoc] at hcell
  · rintro hne hsouth dx hdx hdx'
    have hcell := hnext dx (-11) hdx (by omega) (by omega)
    rw [walk_cell_offset h hloaded hdx (by omega), if_neg (by omega), if_neg (by omega),
      if_pos (show d.offset.2 ≠ 0 ∧ (-11 : ℤ) = -11 by omega)] at hcell
    dsimp only at hcell
    rw [if_neg (by omega), hc dx (-11 + d.offset.2) hdx (by rw [maxWalkCacheHeight_eq]; omega)
      (by omega), hsouth] at hcell
    rw [hsouth]
    convert hcell using 2 <;> ring

omit h hloaded in
/-- What a cell off the new row takes over from the cache before the step. -/
theorem carried_cell {dx dy : ℤ} (hdx : dx.natAbs ≤ 11) (hdy : dy.natAbs ≤ 11)
    (hown : ¬ (dx = -d.offset.1 ∧ dy = -d.offset.2))
    (hedge : ¬ (d.offset.1 ≠ 0 ∧ dx = 11 * d.offset.1))
    (hnew : ¬ (d.offset.2 ≠ 0 ∧ dy = 11 * d.offset.2)) :
    c.cell (if d.offset.2 ≠ 0 ∧ dy = -11 then dx else dx + d.offset.1) (dy + d.offset.2) =
      tileAt walkable c.position.z
        (c.position.x.toNat + if d.offset.2 ≠ 0 ∧ dy = -11 then dx else dx + d.offset.1)
        (c.position.y.toNat + (dy + d.offset.2)) := by
  obtain ⟨hsx, hsy⟩ := offset_natAbs d
  refine hc _ _ ?_ ?_ ?_
  · rw [maxWalkCacheWidth_eq]
    split <;> omega
  · rw [maxWalkCacheHeight_eq]
    omega
  · split <;> omega

theorem coherent_of_safe
    (hsafe : Safe walkable (getNextPosition d c.position) d.offset.1 d.offset.2) :
    (c.walk walkable d).Coherent walkable := by
  obtain ⟨hx, hy⟩ := toNat_getNextPosition h
  obtain ⟨hcolumn, hrow, hlast, hfirst⟩ := hsafe
  rw [getNextPosition_z, hx, hy] at hcolumn hrow hlast hfirst
  simp only [maxWalkCacheWidth_eq, maxWalkCacheHeight_eq, Nat.cast_ofNat]
    at hcolumn hrow hlast hfirst
  rintro dx dy hdx hdy hne
  rw [maxWalkCacheWidth_eq] at hdx
  rw [maxWalkCacheHeight_eq] at hdy
  rw [walk_position h hloaded, getNextPosition_z, hx, hy, walk_cell_offset h hloaded hdx hdy]
  clear hx hy hne
  obtain ⟨hsx, hsy⟩ := offset_natAbs d
  by_cases hown : dx = -d.offset.1 ∧ dy = -d.offset.2
  · rw [if_pos hown, hown.1, hown.2, add_neg_cancel_right, add_neg_cancel_right, tileAt_position]
  rw [if_neg hown]
  by_cases hedge : d.offset.1 ≠ 0 ∧ dx = 11 * d.offset.1
  · rw [if_pos hedge, hedge.2]
    exact hcolumn hedge.1 dy hdy
  rw [if_neg hedge]
  dsimp only
  by_cases hnew : d.offset.2 ≠ 0 ∧ dy = 11 * d.offset.2
  · rw [if_pos hnew]
    by_cases hsouth : d.offset.1 ≠ 0 ∧ d.offset.2 = 1
    · rw [if_neg (by omega), show dy = 11 by omega, ← add_assoc]
      exact hlast hsouth.1 hsouth.2 dx hdx (by omega)
    · have hdx' : (if d.offset.2 ≠ 0 ∧ dy = -11 then dx else dx + d.offset.1) = dx := by
        split <;> omega
      rw [hdx', hnew.2]
      exact hrow hnew.1 hsouth dx hdx
  rw [if_neg hnew, carried_cell hc hdx hdy hown hedge hnew]
  by_cases htop : d.offset.2 ≠ 0 ∧ dy = -11
  · have hsouth : d.offset.2 = 1 := by omega
    rw [if_pos htop, htop.2, hsouth]
    by_cases hstraight : d.offset.1 = 0
    · rw [hstraight]
      congr 1
      ring
    · have hrowFirst := hfirst hstraight hsouth dx hdx (by omega)
      rw [hsouth] at hrowFirst
      convert hrowFirst using 2 <;> ring
  · rw [if_neg htop, add_comm dx, add_comm dy, add_assoc, add_assoc]

end Step

/-! ## The whole window -/

/-- The offset leads to a position of the map. -/
def onMap (pos : Position) (d : ℤ × ℤ) : Bool :=
  (0 ≤ (pos.x.toNat : ℤ) + d.1 ∧ (pos.x.toNat : ℤ) + d.1 < 2 ^ 16 ∧
    0 ≤ (pos.y.toNat : ℤ) + d.2 ∧ (pos.y.toNat : ℤ) + d.2 < 2 ^ 16)

/-- In 16 bits a position that is not on the map lies far from the window. -/
theorem updateTileCache_shift {tile : Bool} {d : ℤ × ℤ} (hdx : -11 ≤ d.1 ∧ d.1 ≤ 11)
    (hdy : -11 ≤ d.2 ∧ d.2 ≤ 11) : c.updateTileCache tile (c.position.shift d) =
      { c with
        localMapCache :=
          if onMap c.position d then c.localMapCache.updateTileCache tile d.1 d.2
          else c.localMapCache } := by
  have hx := c.position.x.toNat_lt
  have hy := c.position.y.toNat_lt
  rw [updateTileCache, if_pos (show (c.position.shift d).z = c.position.z from rfl)]
  simp only [Position.shift, Position.toNat_ofInt, onMap, decide_eq_true_eq]
  split
  case isTrue hmap =>
    rw [show ((c.position.x.toNat : ℤ) + d.1) % 2 ^ 16 - c.position.x.toNat = d.1 by omega,
      show ((c.position.y.toNat : ℤ) + d.2) % 2 ^ 16 - c.position.y.toNat = d.2 by omega]
  case isFalse hmap =>
    rw [Cache.updateTileCache, maxWalkCacheWidth_eq, maxWalkCacheHeight_eq, if_neg (by omega)]

theorem foldl_window (offsets : List (ℤ × ℤ))
    (hoffsets : ∀ d ∈ offsets, (-11 ≤ d.1 ∧ d.1 ≤ 11) ∧ -11 ≤ d.2 ∧ d.2 ≤ 11) (c : Creature) :
    offsets.foldl
        (fun c d => c.updateTileCache (c.getTile walkable d.1 d.2) (c.position.shift d)) c =
      c.refresh walkable (offsets.filter (onMap c.position)) := by
  induction offsets generalizing c with
  | nil => rfl
  | cons d offsets ih =>
    obtain ⟨⟨hdx, hdy⟩, hoffsets⟩ := List.forall_mem_cons.mp hoffsets
    rw [List.foldl_cons, updateTileCache_shift hdx hdy, ih hoffsets, List.filter_cons]
    cases onMap c.position d <;> rfl

theorem mem_window : ∀ d ∈ heights.flatMap fun y => widths.map fun x => (x, y),
    (-11 ≤ d.1 ∧ d.1 ≤ 11) ∧ -11 ≤ d.2 ∧ d.2 ≤ 11 := by
  rintro d hd
  obtain ⟨y, hy, hd⟩ := List.mem_flatMap.mp hd
  obtain ⟨x, hx, rfl⟩ := List.mem_map.mp hd
  exact ⟨Cache.mem_widths.mp hx, Cache.mem_heights.mp hy⟩

theorem updateMapCache_cell {dx dy : ℤ} (hdx : -11 ≤ dx ∧ dx ≤ 11) (hdy : -11 ≤ dy ∧ dy ≤ 11) :
    (c.updateMapCache walkable).cell dx dy =
      if onMap c.position (dx, dy) then c.getTile walkable dx dy else c.cell dx dy := by
  have hmem : (dx, dy) ∈ heights.flatMap fun y => widths.map fun x => (x, y) :=
    List.mem_flatMap.mpr ⟨dy, Cache.mem_heights.mpr hdy,
      List.mem_map.mpr ⟨dx, Cache.mem_widths.mpr hdx, rfl⟩⟩
  have hi : (((11 + dy).toNat : ℕ) : ℤ) - 11 = dy := by omega
  have hj : (((11 + dx).toNat : ℕ) : ℤ) - 11 = dx := by omega
  rw [updateMapCache, foldl_window _ mem_window, cell, cell, maxWalkCacheHeight_eq,
    maxWalkCacheWidth_eq]
  refine (refresh_cell (by omega) (by omega) _).trans ?_
  simp only [Nat.cast_ofNat, hi, hj, List.mem_filter, hmem, true_and]

theorem getTile_of_onMap (dx dy : ℤ) :
    (if onMap c.position (dx, dy) then c.getTile walkable dx dy else false) =
      tileAt walkable c.position.z (c.position.x.toNat + dx) (c.position.y.toNat + dy) := by
  rw [tileAt, getTile_eq, onMap]
  split
  case isTrue hmap => rw [hmap, Bool.true_and]
  case isFalse hmap => rw [eq_false_of_ne_true hmap, Bool.false_and]

theorem updateMapCache_eq (c : Creature) :
    c.updateMapCache walkable =
      c.refresh walkable ((heights.flatMap fun y => widths.map fun x => (x, y)).filter
        (onMap c.position)) :=
  foldl_window _ mem_window c

/-- The cache of a creature that has just appeared. -/
def appear (walkable : Position → Bool) (pos : Position) : Creature :=
  { position := pos : Creature }.onCreatureAppear walkable

theorem appear_position (pos : Position) : (appear walkable pos).position = pos := by
  rw [appear, onCreatureAppear, updateMapCache_eq, refresh_position]

theorem appear_isMapLoaded (pos : Position) : (appear walkable pos).isMapLoaded := by
  rw [appear, onCreatureAppear, updateMapCache_eq]
  rfl

theorem appear_coherent (pos : Position) : (appear walkable pos).Coherent walkable := by
  rintro dx dy hdx hdy -
  rw [maxWalkCacheWidth_eq] at hdx
  rw [maxWalkCacheHeight_eq] at hdy
  rw [appear_position, appear, onCreatureAppear, updateMapCache_cell (by omega) (by omega)]
  exact getTile_of_onMap (c := { position := pos }) dx dy

/-- A coherent cache answers like a new one. -/
theorem getWalkCache_of_coherent (hc : c.Coherent walkable) (pos : Position) :
    c.getWalkCache pos = (appear walkable c.position).getWalkCache pos := by
  have hnew : (appear walkable c.position).Coherent walkable := appear_coherent c.position
  rw [getWalkCache, getWalkCache, appear_position]
  refine ite_congr rfl (fun _ => rfl) fun hz => ite_congr rfl (fun _ => rfl) fun hown => ?_
  refine ite_congr rfl (fun hin => ?_) fun _ => rfl
  have hne : ¬ ((pos.x.toNat : ℤ) - c.position.x.toNat = 0 ∧
      (pos.y.toNat : ℤ) - c.position.y.toNat = 0) := by
    rintro ⟨hx, hy⟩
    have hx' : pos.x = c.position.x := UInt16.toNat_inj.mp (by omega)
    have hy' : pos.y = c.position.y := UInt16.toNat_inj.mp (by omega)
    refine hown ?_
    calc pos = ⟨pos.x, pos.y, pos.z⟩ := rfl
      _ = ⟨c.position.x, c.position.y, c.position.z⟩ := by rw [hx', hy', not_not.mp hz]
  have hcell := hc _ _ hin.1 hin.2 hne
  have hcell' := hnew _ _ hin.1 hin.2 hne
  rw [appear_position, ← hcell] at hcell'
  exact if_congr (iff_of_eq (congrArg (· = true) hcell'.symm)) rfl rfl

/-! ## Runs -/

/-- A step off the map is not taken. -/
def SafeStep (walkable : Position → Bool) (c : Creature) (d : Direction) : Prop :=
  d.inMap c.position →
    Safe walkable (getNextPosition d c.position) d.offset.1 d.offset.2

theorem seen_eq_tileAt {z : UInt8} {x y : ℤ} (hx : 0 ≤ x ∧ x < 2 ^ 16) (hy : 0 ≤ y ∧ y < 2 ^ 16) :
    seen walkable z x y = tileAt walkable z x y := by
  have hmap : 0 ≤ x ∧ x < 2 ^ 16 ∧ 0 ≤ y ∧ y < 2 ^ 16 := ⟨hx.1, hx.2, hy⟩
  rw [tileAt, decide_eq_true hmap, Bool.true_and]

/-- Away from the edges of the map every step is safe but the diagonal ones to the south. -/
theorem safeStep_of_inside (hx : 12 ≤ c.position.x.toNat ∧ c.position.x.toNat + 12 < 2 ^ 16)
    (hy : 12 ≤ c.position.y.toNat ∧ c.position.y.toNat + 12 < 2 ^ 16)
    (hd : d ≠ .SOUTHEAST ∧ d ≠ .SOUTHWEST) : SafeStep walkable c d := by
  rintro hmap
  obtain ⟨hnx, hny⟩ := toNat_getNextPosition hmap
  obtain ⟨hsx, hsy⟩ := offset_natAbs d
  have hstraight : ¬ (d.offset.1 ≠ 0 ∧ d.offset.2 = 1) := by
    cases d <;> simp_all [Direction.offset]
  constructor
  · rintro - dy hdy
    rw [maxWalkCacheHeight_eq] at hdy
    rw [maxWalkCacheWidth_eq]
    exact seen_eq_tileAt (by omega) (by omega)
  · rintro - - dx hdx
    rw [maxWalkCacheWidth_eq] at hdx
    rw [maxWalkCacheHeight_eq]
    exact seen_eq_tileAt (by omega) (by omega)
  · exact fun hne hsouth => absurd ⟨hne, hsouth⟩ hstraight
  · exact fun hne hsouth => absurd ⟨hne, hsouth⟩ hstraight

theorem walk_coherent_iff (hloaded : c.isMapLoaded) (hc : c.Coherent walkable) (d : Direction) :
    (c.walk walkable d).Coherent walkable ↔ SafeStep walkable c d := by
  by_cases h : d.inMap c.position
  · constructor
    · rintro hnext -
      exact safe_of_coherent h hloaded hc hnext
    · rintro hsafe
      exact coherent_of_safe h hloaded hc (hsafe h)
  · rw [walk, if_neg h]
    exact iff_of_true hc fun hin => absurd hin h

theorem walk_loaded (hloaded : c.isMapLoaded) (d : Direction) :
    (c.walk walkable d).isMapLoaded := by
  by_cases h : d.inMap c.position
  · exact walk_isMapLoaded h hloaded
  · rwa [walk, if_neg h]

/-- After every step of a walk the cache is coherent and answers like a new one, exactly if every
step of the walk is safe. -/
theorem coherent_walk_iff (walkable : Position → Bool) (pos : Position)
    (directions : List Direction) :
    (∀ n, ((directions.take n).foldl (walk walkable) (appear walkable pos)).Coherent walkable ∧
      ∀ target, ((directions.take n).foldl (walk walkable) (appear walkable pos)).getWalkCache
          target =
        (appear walkable
          ((directions.take n).foldl (walk walkable) (appear walkable pos)).position).getWalkCache
            target) ↔
      Run.Steps (walk walkable) (SafeStep walkable) (appear walkable pos) directions := by
  rw [← Run.forall_take_iff (I := fun c => c.isMapLoaded) (P := Coherent walkable)
    (fun c d hloaded _ => walk_loaded hloaded d)
    (fun c d hloaded hc => walk_coherent_iff hloaded hc d)
    (appear_isMapLoaded pos) (appear_coherent pos)]
  exact forall_congr' fun n => and_iff_left_of_imp fun hc => getWalkCache_of_coherent hc

/-- A step to the southeast along a column of walkable tiles. -/
theorem southeast_not_coherent :
    ¬ ([Direction.SOUTHEAST].foldl (walk fun pos => pos.x == 100)
      (appear (fun pos => pos.x == 100) ⟨100, 100, 7⟩)).Coherent fun pos => pos.x == 100 := by
  rw [List.foldl_cons, List.foldl_nil]
  rintro hnext
  have hsafe := safe_of_coherent
    (by rw [appear_position]; simp [Direction.inMap, Direction.offset]) (appear_isMapLoaded _)
    (appear_coherent _) hnext
  rw [appear_position] at hsafe
  have hfirst := hsafe.first (by decide) rfl 0 (by decide) (by decide)
  revert hfirst
  decide

end Creature

end WalkCache

end OTServBR
