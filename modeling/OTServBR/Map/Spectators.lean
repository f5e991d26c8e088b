import Mathlib.Data.Finset.Filter
import OTServBR.Map.Creatures

/-! # Spectators

The scan reads the leaves of a rectangle, row by row along their links. As long
as the bounds of the rectangle fit their type it finds the creatures that a
filter over all creatures finds.
-/

namespace OTServBR

namespace Ranges

variable {r : Ranges} {centerPos cpos : Position}

/-- A position on one of the floors, within the range shifted by the floors in between. -/
structure Contains (r : Ranges) (centerPos cpos : Position) : Prop where
  z_mem : r.minRangeZ.toInt ≤ cpos.z.toNat ∧ cpos.z.toNat ≤ r.maxRangeZ.toInt
  x_mem :
    centerPos.x.toNat + r.minRangeX.toInt + (centerPos.z.toNat - cpos.z.toNat) ≤ cpos.x.toNat ∧
    cpos.x.toNat ≤ centerPos.x.toNat + r.maxRangeX.toInt + (centerPos.z.toNat - cpos.z.toNat)
  y_mem :
    centerPos.y.toNat + r.minRangeY.toInt + (centerPos.z.toNat - cpos.z.toNat) ≤ cpos.y.toNat ∧
    cpos.y.toNat ≤ centerPos.y.toNat + r.maxRangeY.toInt + (centerPos.z.toNat - cpos.z.toNat)

theorem accepts_iff : r.accepts centerPos cpos ↔ r.Contains centerPos cpos := by
  unfold accepts min_x max_x min_y max_y
  simp only [Bool.and_eq_true, Bool.not_eq_true', Bool.or_eq_false_iff, decide_eq_false_iff_not]
  constructor
  · intro h
    constructor <;> omega
  · rintro ⟨hz, hx, hy⟩
    omega

instance : Decidable (r.Contains centerPos cpos) := decidable_of_iff _ accepts_iff

/-- The sums that the scan computes for its rectangle. -/
def sums (r : Ranges) (centerPos : Position) : List ℤ :=
  [r.min_x centerPos, r.max_x centerPos, r.min_y centerPos, r.max_y centerPos,
    centerPos.z.toNat - r.maxRangeZ.toInt, centerPos.z.toNat - r.minRangeZ.toInt,
    r.min_x centerPos + r.minoffset centerPos, r.max_x centerPos + r.maxoffset centerPos,
    r.min_y centerPos + r.minoffset centerPos, r.max_y centerPos + r.maxoffset centerPos]

/-- No sum leaves the range of `int32_t`. -/
def Fits (r : Ranges) (centerPos : Position) : Prop :=
  ∀ v ∈ r.sums centerPos, -2 ^ 31 ≤ v ∧ v < 2 ^ 31

instance : Decidable (r.Fits centerPos) := inferInstanceAs (Decidable (∀ v ∈ _, _))

theorem clamp_eq {v : ℤ} (h : -2 ^ 31 ≤ v ∧ v < 2 ^ 31) : clamp v = min 0xFFFF (max 0 v).toNat := by
  rw [clamp, Int32.toInt_ofInt_of_le h.1 h.2]

/-- The clamped rectangle covers every position of the range. -/
theorem Contains.bounds (h : r.Contains centerPos cpos) (hfits : r.Fits centerPos) :
    (r.x1 centerPos ≤ cpos.x.toNat ∧ cpos.x.toNat ≤ r.x2 centerPos) ∧
      (r.y1 centerPos ≤ cpos.y.toNat ∧ cpos.y.toNat ≤ r.y2 centerPos) := by
  obtain ⟨hz, hx, hy⟩ := h
  have hx' := cpos.x.toNat_lt
  have hy' := cpos.y.toNat_lt
  have hmin : r.minoffset centerPos = centerPos.z.toNat - r.maxRangeZ.toInt := by
    have hfit := hfits (centerPos.z.toNat - r.maxRangeZ.toInt) (by simp [sums])
    rw [minoffset, Int32.toInt_ofInt_of_le hfit.1 hfit.2]
  have hmax : r.maxoffset centerPos = centerPos.z.toNat - r.minRangeZ.toInt := by
    have hfit := hfits (centerPos.z.toNat - r.minRangeZ.toInt) (by simp [sums])
    rw [maxoffset, Int32.toInt_ofInt_of_le hfit.1 hfit.2]
  unfold x1 x2 y1 y2
  rw [clamp_eq (hfits _ (by simp [sums])), clamp_eq (hfits _ (by simp [sums])),
    clamp_eq (hfits _ (by simp [sums])), clamp_eq (hfits _ (by simp [sums]))]
  rw [hmin, hmax]
  unfold min_x max_x min_y max_y
  omega

end Ranges

namespace Map

variable {m : Map} {isPlayer : ℕ → Bool} {r : Ranges} {centerPos : Position} {onlyPlayers : Bool}
  {spectators : Finset ℕ} {c : ℕ}

/-! ## The rectangle -/

/-- The leaf of a column and row of the walk. -/
def leafAt (m : Map) (x y : ℕ) : Option ℕ := m.getLeaf (UInt32.ofNat x) (UInt32.ofNat y)

theorem Linked.leafE_leafAt (h : Linked m) {x y i : ℕ} (hi : m.leafAt x y = some i) :
    (m.leaf i).leafE = m.leafAt (x + FLOOR_SIZE) y := by
  rw [h.leafE_eq hi, leafAt, UInt32.ofNat_add]
  rfl

theorem Linked.leafS_leafAt (h : Linked m) {x y i : ℕ} (hi : m.leafAt x y = some i) :
    (m.leaf i).leafS = m.leafAt x (y + FLOOR_SIZE) := by
  rw [h.leafS_eq hi, leafAt, UInt32.ofNat_add]
  rfl

theorem mem_visit {leaf : Option ℕ} : c ∈ m.visit r centerPos onlyPlayers leaf spectators ↔
    c ∈ spectators ∨ ∃ i, leaf = some i ∧ c ∈ (m.leaf i).node_list onlyPlayers ∧
      r.Contains centerPos (m.position c) := by
  cases leaf with
  | none => simp [visit]
  | some i =>
    rw [visit, Finset.mem_union, List.mem_toFinset, List.mem_filter, Ranges.accepts_iff]
    simp [QTreeLeafNode.node_list]

section Walk
variable {x y n startx1 width : ℕ} {leaf : Option ℕ}

theorem scanRow_succ (h : Linked m) (hleaf : leaf = m.leafAt x y) :
    m.scanRow r centerPos onlyPlayers y (n + 1) x leaf spectators =
      m.scanRow r centerPos onlyPlayers y n (x + FLOOR_SIZE) (m.leafAt (x + FLOOR_SIZE) y)
        (m.visit r centerPos onlyPlayers leaf spectators) := by
  cases leaf with
  | none => rfl
  | some i =>
    rw [← h.leafE_leafAt hleaf.symm]
    rfl

theorem scanRows_succ (h : Linked m) (hleaf : leaf = m.leafAt startx1 y) :
    m.scanRows r centerPos onlyPlayers startx1 width (n + 1) y leaf spectators =
      m.scanRows r centerPos onlyPlayers startx1 width n (y + FLOOR_SIZE)
        (m.leafAt startx1 (y + FLOOR_SIZE))
        (m.scanRow r centerPos onlyPlayers y width startx1 leaf spectators) := by
  cases leaf with
  | none => rfl
  | some i =>
    rw [← h.leafS_leafAt hleaf.symm]
    rfl

/-- The walk along a row visits the leaves of the row. -/
theorem mem_scanRow (h : Linked m) (hleaf : leaf = m.leafAt x y) :
    c ∈ m.scanRow r centerPos onlyPlayers y n x leaf spectators ↔
      c ∈ spectators ∨ ∃ k < n, ∃ i, m.leafAt (x + FLOOR_SIZE * k) y = some i ∧
        c ∈ (m.leaf i).node_list onlyPlayers ∧ r.Contains centerPos (m.position c) := by
  induction n generalizing x leaf spectators with
  | zero => simp [scanRow]
  | succ n ih =>
    rw [scanRow_succ h hleaf, ih rfl, mem_visit, hleaf, or_assoc, Nat.exists_lt_succ_left]
    simp only [Nat.mul_zero, Nat.add_zero, Nat.mul_succ, Nat.add_assoc, Nat.add_comm FLOOR_SIZE]

/-- The walk along the rows visits the leaves of the rectangle. -/
theorem mem_scanRows (h : Linked m) (hleaf : leaf = m.leafAt startx1 y) :
    c ∈ m.scanRows r centerPos onlyPlayers startx1 width n y leaf spectators ↔
      c ∈ spectators ∨ ∃ j < n, ∃ k < width, ∃ i,
        m.leafAt (startx1 + FLOOR_SIZE * k) (y + FLOOR_SIZE * j) = some i ∧
          c ∈ (m.leaf i).node_list onlyPlayers ∧ r.Contains centerPos (m.position c) := by
  induction n generalizing y leaf spectators with
  | zero => simp [scanRows]
  | succ n ih =>
    rw [scanRows_succ h hleaf, ih rfl, mem_scanRow h hleaf, or_assoc, Nat.exists_lt_succ_left]
    simp only [Nat.mul_zero, Nat.add_zero, Nat.mul_succ, Nat.add_assoc, Nat.add_comm FLOOR_SIZE]

end Walk

/-! ## The filter -/

/-- The creatures of the range, or the players among them, without a look at the leaves. -/
def inRange (m : Map) (isPlayer : ℕ → Bool) (r : Ranges) (centerPos : Position)
    (onlyPlayers : Bool) : Finset ℕ :=
  m.creatures.filter fun c => (onlyPlayers → isPlayer c) ∧ r.Contains centerPos (m.position c)

/-- A position of the rectangle is on a leaf that the walk visits. -/
theorem Linked.exists_leafAt (h : Linked m) {x1 x2 y1 y2 : ℕ} {pos : Position} {i : ℕ}
    (hi : m.getQTNode pos = some i) (hx : x1 ≤ pos.x.toNat ∧ pos.x.toNat ≤ x2)
    (hy : y1 ≤ pos.y.toNat ∧ pos.y.toNat ≤ y2) :
    ∃ j < steps (y1 - y1 % FLOOR_SIZE) (y2 - y2 % FLOOR_SIZE),
      ∃ k < steps (x1 - x1 % FLOOR_SIZE) (x2 - x2 % FLOOR_SIZE),
        m.leafAt (x1 - x1 % FLOOR_SIZE + FLOOR_SIZE * k) (y1 - y1 % FLOOR_SIZE + FLOOR_SIZE * j) =
          some i := by
  have hsteps : ∀ {a b p : ℕ}, a ≤ p → p ≤ b →
      p / 8 - a / 8 < steps (a - a % FLOOR_SIZE) (b - b % FLOOR_SIZE) := by
    intro a b p ha hb
    unfold steps FLOOR_SIZE
    omega
  have hcolumn : ∀ {a : ℕ} {p : UInt16}, a ≤ p.toNat →
      column (UInt32.ofNat (a - a % FLOOR_SIZE + FLOOR_SIZE * (p.toNat / 8 - a / 8))) =
        column p.toUInt32 := by
    intro a p ha
    have hp := p.toNat_lt
    rw [column, column, UInt32.toNat_ofNat', UInt16.toNat_toUInt32]
    unfold FLOOR_SIZE
    omega
  refine ⟨_, hsteps hy.1 hy.2, _, hsteps hx.1 hx.2, ?_⟩
  rw [leafAt, h.getLeaf_congr (hcolumn hx.1) (hcolumn hy.1)]
  exact hi

theorem Settled.getSpectatorsInternal_eq (h : Settled isPlayer m) (hfits : r.Fits centerPos) :
    m.getSpectatorsInternal r centerPos onlyPlayers spectators =
      spectators ∪ m.inRange isPlayer r centerPos onlyPlayers := by
  ext c
  rw [getSpectatorsInternal, Finset.mem_union, inRange, Finset.mem_filter]
  refine (mem_scanRows h.linked rfl).trans (or_congr_right ?_)
  constructor
  · rintro ⟨j, -, k, -, i, -, hmem, hcontains⟩
    obtain ⟨⟨hc, -⟩, hplayer⟩ := h.mem_iff.mp hmem
    exact ⟨hc, hplayer, hcontains⟩
  · rintro ⟨hc, hplayer, hcontains⟩
    obtain ⟨i, hi⟩ := Option.isSome_iff_exists.mp (h.isSome hc)
    obtain ⟨hx, hy⟩ := hcontains.bounds hfits
    obtain ⟨j, hj, k, hk, hleaf⟩ := h.linked.exists_leafAt hi hx hy
    exact ⟨j, hj, k, hk, i, hleaf, h.mem_iff.mpr ⟨⟨hc, hi⟩, hplayer⟩, hcontains⟩

/-- On a map built by any operations the scan finds what the filter finds. -/
theorem getSpectatorsInternal_build (isPlayer : ℕ → Bool) (ops : List Op) (r : Ranges)
    (centerPos : Position) (onlyPlayers : Bool) (spectators : Finset ℕ) (hfits : r.Fits centerPos) :
    (build isPlayer ops).getSpectatorsInternal r centerPos onlyPlayers spectators =
      spectators ∪ (build isPlayer ops).inRange isPlayer r centerPos onlyPlayers :=
  (settled_build isPlayer ops).getSpectatorsInternal_eq hfits

/-- A map with a creature on its only tile. -/
def oneCreature : List Op :=
  [.setTile 100 100 7, .placeCreature 1 { x := 100, y := 100, z := 7 }]

theorem getSpectatorsInternal_oneCreature :
    (build (fun _ => false) oneCreature).getSpectatorsInternal ⟨-11, 11, -11, 11, 0, 9⟩
        { x := 95, y := 108, z := 7 } false ∅ = {1} := by
  have h := getSpectatorsInternal_build (fun _ => false) oneCreature ⟨-11, 11, -11, 11, 0, 9⟩
    { x := 95, y := 108, z := 7 } false ∅ (by decide)
  rw [h]
  decide

/-- The right edge `0 + INT32_MAX + 7` of this rectangle turns negative. -/
theorem spectator_missed :
    ¬∀ (isPlayer : ℕ → Bool) (ops : List Op) (r : Ranges) (centerPos : Position)
      (onlyPlayers : Bool) (spectators : Finset ℕ),
      (build isPlayer ops).getSpectatorsInternal r centerPos onlyPlayers spectators =
        spectators ∪ (build isPlayer ops).inRange isPlayer r centerPos onlyPlayers := by
  intro h
  have hmissed := h (fun _ => false) oneCreature ⟨0, Int32.maxValue, 0, 200, 0, 7⟩
    { x := 0, y := 0, z := 7 } false ∅
  revert hmissed
  decide

end Map

end OTServBR
