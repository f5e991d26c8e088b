import Mathlib
import OTServBR.Lib.Placement
import OTServBR.Map.Path

/-! # Areas of combat

An area is a matrix of tiles with a centre. It is drawn for one direction and
turned for the others. The rotations are done about the centre; the mirror and
the flip reverse the columns or the rows, and take the new centre from the wrong
side of the matrix.
-/

namespace OTServBR

/-- A matrix with its centre; positions are rows first. -/
structure MatrixArea where
  rows : ℕ
  cols : ℕ
  /-- What an unsigned subtraction wraps below zero is outside of every matrix. -/
  center : ℤ × ℤ := (0, 0)
  data : ℤ × ℤ → Bool := fun _ => false

namespace MatrixArea

variable (m : MatrixArea)

def Inside (q : ℤ × ℤ) : Prop := 0 ≤ q.1 ∧ q.1 < m.rows ∧ 0 ≤ q.2 ∧ q.2 < m.cols

instance : DecidablePred m.Inside := fun q =>
  inferInstanceAs (Decidable (0 ≤ q.1 ∧ q.1 < m.rows ∧ 0 ≤ q.2 ∧ q.2 < m.cols))

def setValue (q : ℤ × ℤ) (value : Bool) : Option MatrixArea :=
  (Placement.write m.Inside m.data q value).map fun data => { m with data }

/-- The positions in the matrix. -/
def positions : List (ℤ × ℤ) :=
  (List.range m.rows).flatMap fun (y : ℕ) => (List.range m.cols).map fun (x : ℕ) => (↑y, ↑x)

/-- The value at a position, and nothing outside of the matrix. -/
def cell (q : ℤ × ℤ) : Bool := decide (m.Inside q) && m.data q

variable {m} {q : ℤ × ℤ}

theorem cell_of_inside (h : m.Inside q) : m.cell q = m.data q := by
  rw [cell, decide_eq_true h, Bool.true_and]

theorem cell_of_not_inside (h : ¬ m.Inside q) : m.cell q = false := by
  rw [cell, decide_eq_false h, Bool.false_and]

theorem cell_of_data (h : m.data q = false) : m.cell q = false := by
  rw [cell, h, Bool.and_false]

theorem mem_positions : q ∈ m.positions ↔ m.Inside q := by
  obtain ⟨y, x⟩ := q
  simp only [positions, List.mem_flatMap, List.mem_map, List.mem_range, Prod.mk.injEq, Inside]
  constructor
  · rintro ⟨y, hy, x, hx, rfl, rfl⟩
    omega
  · rintro ⟨hy, hrows, hx, hcols⟩
    exact ⟨y.toNat, by omega, x.toNat, by omega, by omega, by omega⟩

/-- Of the same rows and columns. -/
structure SameSize (a b : MatrixArea) : Prop where
  rows : a.rows = b.rows
  cols : a.cols = b.cols

theorem SameSize.inside {a b : MatrixArea} (h : a.SameSize b) : a.Inside q ↔ b.Inside q := by
  rw [Inside, Inside, h.rows, h.cols]

/-- A value of a list at its position. -/
def draw (area : MatrixArea) (value : ℕ) (q : ℤ × ℤ) : MatrixArea :=
  { area with
    data := if value = 1 ∨ value = 3 then Function.update area.data q true else area.data
    center := if value = 2 ∨ value = 3 then q else area.center }

end MatrixArea

namespace AreaCombat

inductive MatrixOperation
  | COPY | MIRROR | FLIP | ROTATE90 | ROTATE180 | ROTATE270
  deriving DecidableEq, Repr

/-- The cosine and the sine of the angle. -/
def MatrixOperation.angle : MatrixOperation → ℤ × ℤ
  | ROTATE90 => (0, 1)
  | ROTATE180 => (-1, 0)
  | ROTATE270 => (0, -1)
  | _ => (1, 0)

/-- The rotated coordinates: `newX * a + newY * b` and `newX * c + newY * d`. -/
def MatrixOperation.rotate (op : MatrixOperation) (q : ℤ × ℤ) : ℤ × ℤ :=
  (q.2 * op.angle.2 + q.1 * op.angle.1, q.2 * op.angle.1 - q.1 * op.angle.2)

def rotateCenter (output : MatrixArea) : ℤ × ℤ :=
  ((output.rows / 2 : ℕ) - 1, (output.cols / 2 : ℕ) - 1)

/-- Where a value of the input goes. -/
def place (input output : MatrixArea) (op : MatrixOperation) (q : ℤ × ℤ) : ℤ × ℤ :=
  match op with
  | .COPY => q
  | .MIRROR => (q.1, input.cols - 1 - q.2)
  | .FLIP => (input.rows - 1 - q.1, q.2)
  | op => op.rotate (q - input.center) + rotateCenter output

/-- The centre that the output gets. -/
def placeCenter (input output : MatrixArea) (op : MatrixOperation) : ℤ × ℤ :=
  match op with
  | .COPY => input.center
  | .MIRROR => (input.center.1, input.rows - 1 - input.center.2)
  | .FLIP => (input.cols - 1 - input.center.1, input.center.2)
  | _ => rotateCenter output

/-- No two values go to one place, so the order of the loops does not matter. None where a value
is written outside of the output. -/
def copyArea (input output : MatrixArea) (op : MatrixOperation) : Option MatrixArea :=
  (Placement.writeAll output.Inside (place input output op) input.data input.positions
    output.data).map fun data => { output with data, center := placeCenter input output op }

/-- The loop over the list, at a row and a column. -/
def fillArea : List ℕ → ℕ → ℕ → MatrixArea → Option MatrixArea
  | [], _, _, area => some area
  | value :: list, y, x, area =>
    (if value = 1 ∨ value = 3 then area.setValue (y, x) true else some area).bind fun area =>
      let area := if value = 2 ∨ value = 3 then { area with center := (y, x) } else area
      if area.cols = x + 1 then fillArea list (y + 1) 0 area else fillArea list y (x + 1) area

def createArea (list : List ℕ) (rows : ℕ) : Option MatrixArea :=
  fillArea list 0 0 { rows, cols := if rows = 0 then 0 else list.length / rows }

end AreaCombat

structure AreaCombat where
  areas : Direction → Option MatrixArea := fun _ => none
  hasExtArea : Bool := false

namespace AreaCombat

def setArea (combat : AreaCombat) (dir : Direction) (area : MatrixArea) : AreaCombat :=
  { combat with areas := Function.update combat.areas dir (some area) }

/-- The square matrix for an area that is turned. -/
def outputOf (area : MatrixArea) : MatrixArea :=
  { rows := max area.cols area.rows * 2, cols := max area.cols area.rows * 2 }

def setupArea (combat : AreaCombat) (list : List ℕ) (rows : ℕ) : Option AreaCombat :=
  (createArea list rows).bind fun area =>
  (copyArea area (outputOf area) .ROTATE180).bind fun southArea =>
  (copyArea area (outputOf area) .ROTATE90).bind fun eastArea =>
  (copyArea area (outputOf area) .ROTATE270).bind fun westArea =>
  some ((((combat.setArea .NORTH area).setArea .SOUTH southArea).setArea .EAST eastArea).setArea
    .WEST westArea)

def setupExtArea (combat : AreaCombat) (list : List ℕ) (rows : ℕ) : Option AreaCombat :=
  if list.isEmpty then some combat
  else
    (createArea list rows).bind fun area =>
    (copyArea area (outputOf area) .MIRROR).bind fun neArea =>
    (copyArea area (outputOf area) .FLIP).bind fun swArea =>
    (copyArea swArea (outputOf area) .MIRROR).bind fun seArea =>
    some { (((combat.setArea .NORTHWEST area).setArea .NORTHEAST neArea).setArea .SOUTHWEST
      swArea).setArea .SOUTHEAST seArea with hasExtArea := true }

/-! ### Copies -/

section Copy

variable {input output area : MatrixArea} {op : MatrixOperation}

/-- A copy to an empty matrix that has room for it holds every value at its place. -/
theorem exists_copyArea (hblank : ∀ q, output.data q = false)
    (hinside : ∀ q, input.Inside q → output.Inside (place input output op q))
    (hplace : Function.Injective (place input output op)) :
    ∃ area, copyArea input output op = some area ∧ area.SameSize output ∧
      area.center = placeCenter input output op ∧
      ∀ q, area.cell (place input output op q) = input.cell q := by
  obtain ⟨data, hdata, hvalue, hkept⟩ := Placement.exists_writeAll input.data output.data
    (fun q hq => hinside q (MatrixArea.mem_positions.mp hq)) hplace
  refine ⟨{ output with data, center := placeCenter input output op }, ?_, ⟨rfl, rfl⟩, rfl,
    fun q => ?_⟩
  · rw [copyArea, hdata, Option.map_some]
  by_cases hq : input.Inside q
  · rw [MatrixArea.cell_of_inside hq, ← hvalue q (MatrixArea.mem_positions.mpr hq)]
    exact MatrixArea.cell_of_inside (hinside q hq)
  · rw [MatrixArea.cell_of_not_inside hq]
    refine MatrixArea.cell_of_data ?_
    refine (hkept _ fun a ha heq => ?_).trans (hblank _)
    exact hq (hplace heq ▸ MatrixArea.mem_positions.mp ha)

end Copy

end AreaCombat

/-! ### Patterns -/

/-- A list of rows of the same length with one centre. -/
structure Pattern where
  list : List ℕ
  rows : ℕ
  cols : ℕ
  length_eq : list.length = rows * cols
  centerIndex : ℕ
  center_lt : centerIndex < list.length
  center_iff : ∀ i v, list[i]? = some v → ((v = 2 ∨ v = 3) ↔ i = centerIndex)

namespace Pattern

variable (p : Pattern)

/-- The row and the column of an index of the list. -/
def position (n : ℕ) : ℤ × ℤ := ((n / p.cols : ℕ), (n % p.cols : ℕ))

def center : ℤ × ℤ := p.position p.centerIndex

def Hit (n : ℕ) : Prop := p.list[n]? = some 1 ∨ p.list[n]? = some 3

instance (n : ℕ) : Decidable (p.Hit n) := inferInstanceAs (Decidable (_ ∨ _))

/-- The value at a position, and nothing outside of the pattern. -/
def cell (q : ℤ × ℤ) : Bool :=
  decide ((0 ≤ q.1 ∧ q.1 < p.rows ∧ 0 ≤ q.2 ∧ q.2 < p.cols) ∧ p.Hit (q.1 * p.cols + q.2).toNat)

variable {p}

theorem cols_pos (p : Pattern) : 0 < p.cols := by
  refine Nat.pos_of_ne_zero fun hzero => ?_
  have := p.center_lt
  rw [p.length_eq, hzero] at this
  omega

theorem rows_pos (p : Pattern) : 0 < p.rows := by
  refine Nat.pos_of_ne_zero fun hzero => ?_
  have := p.center_lt
  rw [p.length_eq, hzero] at this
  omega

theorem position_inside {n : ℕ} (h : n < p.list.length) :
    0 ≤ (p.position n).1 ∧ (p.position n).1 < p.rows ∧ 0 ≤ (p.position n).2 ∧
      (p.position n).2 < p.cols := by
  rw [p.length_eq, Nat.mul_comm] at h
  exact ⟨Int.natCast_nonneg _, Int.ofNat_lt.mpr (Nat.div_lt_of_lt_mul h), Int.natCast_nonneg _,
    Int.ofNat_lt.mpr (Nat.mod_lt n p.cols_pos)⟩

theorem lt_of_hit {n : ℕ} (h : p.Hit n) : n < p.list.length := by
  obtain h | h := h <;> exact (List.getElem?_eq_some_iff.mp h).1

theorem cell_iff {q : ℤ × ℤ} : p.cell q = true ↔ ∃ n, p.Hit n ∧ q = p.position n := by
  rw [cell, decide_eq_true_eq]
  constructor
  · obtain ⟨y, x⟩ := q
    rintro ⟨⟨hy, -, hx, hcols⟩, hhit⟩
    lift y to ℕ using hy
    lift x to ℕ using hx
    refine ⟨_, hhit, ?_⟩
    have hdiv : ((y : ℤ) * p.cols + x).toNat = x + p.cols * y := by
      rw [Nat.mul_comm, Nat.add_comm]
      exact Int.toNat_natCast _
    have hxlt : x < p.cols := Int.ofNat_lt.mp hcols
    obtain ⟨hq, hr⟩ := (Nat.div_mod_unique p.cols_pos).mpr ⟨rfl, hxlt⟩
    rw [hdiv, position, hq, hr]
  · rintro ⟨n, hhit, rfl⟩
    refine ⟨position_inside (lt_of_hit hhit), ?_⟩
    have hn : ((p.position n).1 * p.cols + (p.position n).2).toNat = n := by
      rw [position, ← Nat.cast_mul, ← Nat.cast_add, Int.toNat_natCast, Nat.mul_comm, Nat.add_comm]
      exact Nat.mod_add_div n p.cols
    rwa [hn]

/-- The next row and column. -/
theorem div_mod_succ (n : ℕ) : if p.cols = n % p.cols + 1
    then (n + 1) / p.cols = n / p.cols + 1 ∧ (n + 1) % p.cols = 0
    else (n + 1) / p.cols = n / p.cols ∧ (n + 1) % p.cols = n % p.cols + 1 := by
  have hn := Nat.mod_add_div n p.cols
  have hlt := Nat.mod_lt n p.cols_pos
  split_ifs with hlast
  · refine (Nat.div_mod_unique p.cols_pos).mpr ⟨?_, p.cols_pos⟩
    rw [Nat.mul_add]
    omega
  · exact (Nat.div_mod_unique p.cols_pos).mpr ⟨by omega, by omega⟩

open AreaCombat

theorem fillArea_cons {value : ℕ} {list : List ℕ} {y x : ℕ} {area : MatrixArea}
    (h : area.Inside (y, x)) : fillArea (value :: list) y x area =
      if area.cols = x + 1 then fillArea list (y + 1) 0 (area.draw value (y, x))
      else fillArea list y (x + 1) (area.draw value (y, x)) := by
  have hset : (if value = 1 ∨ value = 3 then area.setValue (y, x) true else some area) =
      some { area with data :=
        if value = 1 ∨ value = 3 then Function.update area.data (y, x) true else area.data } := by
    split_ifs
    · rw [MatrixArea.setValue, Placement.write, if_pos h]
      rfl
    · rfl
  rw [fillArea, hset, Option.bind_some]
  unfold MatrixArea.draw
  dsimp only
  split_ifs <;> rfl

/-- What the loop has drawn when it comes to the end. -/
theorem exists_fillArea {list : List ℕ} {n : ℕ} {area : MatrixArea} (hlist : p.list.drop n = list)
    (hrows : area.rows = p.rows) (hcols : area.cols = p.cols) :
    ∃ filled, fillArea list (n / p.cols) (n % p.cols) area = some filled ∧
      filled.rows = p.rows ∧ filled.cols = p.cols ∧
      (∀ q, filled.data q = true ↔ area.data q = true ∨ ∃ k ≥ n, p.Hit k ∧ q = p.position k) ∧
      filled.center = if n ≤ p.centerIndex then p.center else area.center := by
  induction list generalizing n area with
  | nil =>
    have hend : p.list.length ≤ n := List.drop_eq_nil_iff.mp hlist
    refine ⟨area, rfl, hrows, hcols, fun q => ?_, ?_⟩
    · refine ⟨Or.inl, fun h => h.resolve_right ?_⟩
      rintro ⟨k, hk, hhit, -⟩
      have := lt_of_hit hhit
      omega
    · have := p.center_lt
      rw [if_neg (by omega)]
  | cons value list ih =>
    have hvalue : p.list[n]? = some value := by
      rw [← List.head?_drop, hlist]
      rfl
    have hnext : p.list.drop (n + 1) = list := by
      rw [← List.tail_drop, hlist]
      rfl
    have hinside : area.Inside (p.position n) := by
      rw [MatrixArea.Inside, hrows, hcols]
      exact position_inside (List.getElem?_eq_some_iff.mp hvalue).1
    have hstep : fillArea (value :: list) (n / p.cols) (n % p.cols) area =
        fillArea list ((n + 1) / p.cols) ((n + 1) % p.cols) (area.draw value (p.position n)) := by
      rw [fillArea_cons hinside, hcols]
      have hsucc := p.div_mod_succ n
      split_ifs at hsucc ⊢ with hlast
      · rw [hsucc.1, hsucc.2]
        rfl
      · rw [hsucc.1, hsucc.2]
        rfl
    have hdrawn : (area.draw value (p.position n)).rows = p.rows := hrows
    obtain ⟨filled, hfilled, hr, hc, hdata, hcenter⟩ := ih hnext hdrawn hcols
    refine ⟨filled, hstep.trans hfilled, hr, hc, fun q => ?_, ?_⟩
    · have hdraw : (area.draw value (p.position n)).data q = true ↔
          area.data q = true ∨ p.Hit n ∧ q = p.position n := by
        unfold MatrixArea.draw Hit
        rw [hvalue, Option.some_inj, Option.some_inj]
        dsimp only
        split_ifs with hset
        · by_cases hq : q = p.position n <;> simp [hq, hset]
        · simp [hset]
      rw [hdata, hdraw, or_assoc]
      refine or_congr_right ⟨?_, ?_⟩
      · rintro (⟨hhit, hq⟩ | ⟨k, hk, hhit, hq⟩)
        · exact ⟨n, le_refl n, hhit, hq⟩
        · exact ⟨k, by omega, hhit, hq⟩
      · rintro ⟨k, hk, hhit, hq⟩
        obtain rfl | hlt := Nat.eq_or_lt_of_le hk
        · exact Or.inl ⟨hhit, hq⟩
        · exact Or.inr ⟨k, hlt, hhit, hq⟩
    · have hiff := p.center_iff n value hvalue
      rw [hcenter, MatrixArea.draw]
      dsimp only
      by_cases hcenter : value = 2 ∨ value = 3
      · have hn := hiff.mp hcenter
        rw [if_neg (by omega), if_pos hcenter, if_pos (by omega), center, hn]
      · have hn := mt hiff.mpr hcenter
        rw [if_neg hcenter]
        split_ifs <;> first | rfl | omega

/-- The area of a pattern as it is drawn. -/
structure Draws (p : Pattern) (area : MatrixArea) : Prop where
  rows : area.rows = p.rows
  cols : area.cols = p.cols
  center : area.center = p.center
  cell : ∀ q, area.cell q = p.cell q

theorem exists_createArea (p : Pattern) :
    ∃ area, createArea p.list p.rows = some area ∧ p.Draws area := by
  have hcols : p.list.length / p.rows = p.cols := by
    rw [p.length_eq, Nat.mul_div_cancel_left _ p.rows_pos]
  have hblank : ({ rows := p.rows, cols := p.cols } : MatrixArea).rows = p.rows := rfl
  obtain ⟨area, harea, hr, hc, hdata, hcenter⟩ := exists_fillArea (n := 0) rfl hblank rfl
  rw [Nat.zero_div, Nat.zero_mod] at harea
  refine ⟨area, ?_, ⟨hr, hc, by rw [hcenter, if_pos (Nat.zero_le _)], fun q => ?_⟩⟩
  · rw [createArea, if_neg p.rows_pos.ne', hcols]
    exact harea
  · rw [Bool.eq_iff_iff, cell_iff, MatrixArea.cell, Bool.and_eq_true, decide_eq_true_eq, hdata]
    constructor
    · rintro ⟨-, hfalse | ⟨n, -, hhit, hq⟩⟩
      · cases hfalse
      · exact ⟨n, hhit, hq⟩
    · rintro ⟨n, hhit, rfl⟩
      refine ⟨?_, Or.inr ⟨n, Nat.zero_le n, hhit, rfl⟩⟩
      rw [MatrixArea.Inside, hr, hc]
      exact position_inside (lt_of_hit hhit)

theorem center_inside (p : Pattern) :
    0 ≤ p.center.1 ∧ p.center.1 < p.rows ∧ 0 ≤ p.center.2 ∧ p.center.2 < p.cols :=
  position_inside p.center_lt

theorem cell_outside {q : ℤ × ℤ} (h : ¬(0 ≤ q.1 ∧ q.1 < p.rows ∧ 0 ≤ q.2 ∧ q.2 < p.cols)) :
    p.cell q = false := by
  rw [cell, decide_eq_false fun hcell => h hcell.1]

theorem far_outside {x s : ℤ} {n : ℕ} (hs : s ≠ 0) (hx : 0 ≤ x ∧ x < n) :
    ¬(0 ≤ x + n * s ∧ x + n * s < n) := by
  rintro ⟨hlow, hhigh⟩
  obtain hneg | hpos := lt_or_gt_of_ne hs
  · nlinarith
  · nlinarith

/-- A pattern that is the same one shift away is empty. -/
theorem cell_eq_false_of_shift {s : ℤ × ℤ} (hs : s ≠ 0) (h : ∀ q, p.cell (q + s) = p.cell q)
    (q : ℤ × ℤ) : p.cell q = false := by
  have hmany : ∀ n : ℕ, p.cell (q + n • s) = p.cell q := by
    intro n
    induction n with
    | zero => rw [zero_smul, add_zero]
    | succ n ih => rw [succ_nsmul, ← add_assoc, h, ih]
  have hinside : ∀ n : ℕ, p.cell q = true → 0 ≤ q.1 + n * s.1 ∧ q.1 + n * s.1 < p.rows ∧
      0 ≤ q.2 + n * s.2 ∧ q.2 + n * s.2 < p.cols := by
    intro n hset
    rw [← hmany n] at hset
    by_contra hout
    rw [cell_outside (by simpa using hout)] at hset
    cases hset
  rw [← Bool.not_eq_true]
  intro hset
  have hhere := hinside 0 hset
  simp only [Nat.cast_zero, zero_mul, add_zero] at hhere
  have haxis : s.1 ≠ 0 ∨ s.2 ≠ 0 := by
    by_contra hboth
    simp only [not_or, not_not] at hboth
    exact hs (Prod.ext hboth.1 hboth.2)
  obtain hrow | hcol := haxis
  · exact far_outside hrow ⟨hhere.1, hhere.2.1⟩
      ⟨(hinside p.rows hset).1, (hinside p.rows hset).2.1⟩
  · exact far_outside hcol hhere.2.2 (hinside p.cols hset).2.2

theorem shift_iff {s : ℤ × ℤ} : (∀ d, p.cell (p.center + d + s) = p.cell (p.center + d)) ↔
    s = 0 ∨ ∀ q, p.cell q = false := by
  constructor
  · intro h
    refine or_iff_not_imp_left.mpr fun hs => cell_eq_false_of_shift hs fun q => ?_
    have hq := h (q - p.center)
    rwa [add_sub_cancel] at hq
  · rintro (rfl | hempty) d
    · rw [add_zero]
    · rw [hempty, hempty]

/-- The area holds at its centre plus a turned vector what the pattern holds at its centre plus the
vector. -/
structure Exact (turn : ℤ × ℤ → ℤ × ℤ) (p : Pattern) (area : MatrixArea) : Prop where
  center : area.Inside area.center
  cells : ∀ d, area.cell (area.center + turn d) = p.cell (p.center + d)

section Turns

variable {area input output : MatrixArea} {op : MatrixOperation}

theorem Draws.inside (h : p.Draws area) {q : ℤ × ℤ} : area.Inside q ↔
    0 ≤ q.1 ∧ q.1 < p.rows ∧ 0 ≤ q.2 ∧ q.2 < p.cols := by
  rw [MatrixArea.Inside, h.rows, h.cols]

theorem Draws.inside_outputOf (h : p.Draws area) {q : ℤ × ℤ} : (outputOf area).Inside q ↔
    0 ≤ q.1 ∧ q.1 < max p.cols p.rows * 2 ∧ 0 ≤ q.2 ∧ q.2 < max p.cols p.rows * 2 := by
  unfold MatrixArea.Inside outputOf
  rw [h.rows, h.cols]
  push_cast
  rfl

theorem Draws.exact (h : p.Draws area) : Exact id p area where
  center := h.inside.mpr (h.center ▸ p.center_inside)
  cells d := by rw [h.cell, h.center, id]

theorem Draws.rotateCenter (h : p.Draws area) : AreaCombat.rotateCenter (outputOf area) =
    (max (p.cols : ℤ) p.rows - 1, max (p.cols : ℤ) p.rows - 1) := by
  unfold AreaCombat.rotateCenter outputOf
  rw [h.rows, h.cols, Nat.mul_div_cancel _ two_pos, Nat.cast_max]

/-- A rotation is exact. -/
theorem Draws.exists_rotation (h : p.Draws area)
    (hop : op ∈ [MatrixOperation.ROTATE90, .ROTATE180, .ROTATE270]) :
    ∃ turned, copyArea area (outputOf area) op = some turned ∧ Exact op.rotate p turned := by
  simp only [List.mem_cons, List.not_mem_nil, or_false] at hop
  have hplace : ∀ q, place area (outputOf area) op q =
      op.rotate (q - p.center) + AreaCombat.rotateCenter (outputOf area) := by
    intro q
    rw [← h.center]
    obtain rfl | rfl | rfl := hop <;> rfl
  have hcenter : placeCenter area (outputOf area) op = AreaCombat.rotateCenter (outputOf area) := by
    obtain rfl | rfl | rfl := hop <;> rfl
  have hinside : ∀ q, area.Inside q → (outputOf area).Inside (place area (outputOf area) op q) := by
    intro q hq
    have hq := h.inside.mp hq
    have hcenter := p.center_inside
    rw [h.inside_outputOf, hplace, h.rotateCenter]
    obtain rfl | rfl | rfl := hop
    all_goals
      simp only [MatrixOperation.rotate, MatrixOperation.angle, Prod.fst_add, Prod.snd_add,
        Prod.fst_sub, Prod.snd_sub]
      omega
  have hinj : Function.Injective (place area (outputOf area) op) := by
    intro a b hab
    simp only [hplace, add_left_inj, MatrixOperation.rotate, Prod.mk.injEq, Prod.fst_sub,
      Prod.snd_sub] at hab
    obtain rfl | rfl | rfl := hop
    all_goals
      simp only [MatrixOperation.angle] at hab
      ext <;> omega
  obtain ⟨turned, hturned, hsize, hc, hcell⟩ := exists_copyArea (fun _ => rfl) hinside hinj
  refine ⟨turned, hturned, ⟨?_, fun d => ?_⟩⟩
  · rw [hsize.inside, hc, hcenter, h.inside_outputOf, h.rotateCenter]
    have := p.rows_pos
    dsimp only
    omega
  · have hd : turned.center + op.rotate d = place area (outputOf area) op (p.center + d) := by
      rw [hplace, hc, hcenter, add_sub_cancel_left, add_comm]
    rw [hd, hcell, h.cell]

/-- The vector of the mirror. -/
def mirror (d : ℤ × ℤ) : ℤ × ℤ := (d.1, -d.2)

/-- The vector of the flip. -/
def flip (d : ℤ × ℤ) : ℤ × ℤ := (-d.1, d.2)

/-- A mirror is off by the difference of the columns and the rows. -/
theorem exists_mirror (hblank : ∀ q, output.data q = false) (hrows : input.rows ≤ output.rows)
    (hcols : input.cols ≤ output.cols) : ∃ turned, copyArea input output .MIRROR = some turned ∧
      turned.SameSize output ∧
      turned.center = (input.center.1, input.rows - 1 - input.center.2) ∧
      ∀ d, turned.cell (turned.center + mirror d) =
        input.cell (input.center + d + (0, (input.cols : ℤ) - input.rows)) := by
  have hinside : ∀ q, input.Inside q → output.Inside (place input output .MIRROR q) := by
    rintro q ⟨hy, hyrows, hx, hxcols⟩
    unfold MatrixArea.Inside place
    dsimp only
    omega
  have hinj : Function.Injective (place input output .MIRROR) := by
    intro a b hab
    simp only [place, Prod.mk.injEq] at hab
    ext <;> omega
  obtain ⟨turned, hturned, hsize, hc, hcell⟩ := exists_copyArea hblank hinside hinj
  refine ⟨turned, hturned, hsize, hc, fun d => ?_⟩
  rw [← hcell, hc]
  congr 1
  ext
  · simp [place, placeCenter, mirror]
  · simp only [place, placeCenter, mirror, Prod.snd_add]
    omega

/-- A flip is off by the difference of the columns and the rows. -/
theorem exists_flip (hblank : ∀ q, output.data q = false) (hrows : input.rows ≤ output.rows)
    (hcols : input.cols ≤ output.cols) : ∃ turned, copyArea input output .FLIP = some turned ∧
      turned.SameSize output ∧
      turned.center = (input.cols - 1 - input.center.1, input.center.2) ∧
      ∀ d, turned.cell (turned.center + flip d) =
        input.cell (input.center + d + ((input.rows : ℤ) - input.cols, 0)) := by
  have hinside : ∀ q, input.Inside q → output.Inside (place input output .FLIP q) := by
    rintro q ⟨hy, hyrows, hx, hxcols⟩
    unfold MatrixArea.Inside place
    dsimp only
    omega
  have hinj : Function.Injective (place input output .FLIP) := by
    intro a b hab
    simp only [place, Prod.mk.injEq] at hab
    ext <;> omega
  obtain ⟨turned, hturned, hsize, hc, hcell⟩ := exists_copyArea hblank hinside hinj
  refine ⟨turned, hturned, hsize, hc, fun d => ?_⟩
  rw [← hcell, hc]
  congr 1
  ext
  · simp only [place, placeCenter, flip, Prod.fst_add]
    omega
  · simp [place, placeCenter, flip]

theorem le_outputOf (area : MatrixArea) :
    area.rows ≤ (outputOf area).rows ∧ area.cols ≤ (outputOf area).cols := by
  unfold outputOf
  dsimp only
  omega

/-- A copy that is one shift off is exact without a shift or without a cell. -/
theorem exact_iff_of_shift {turn : ℤ × ℤ → ℤ × ℤ} {s : ℤ × ℤ} {bound : Prop}
    (hcells : ∀ d, area.cell (area.center + turn d) = p.cell (p.center + d + s))
    (hcenter : area.Inside area.center ↔ bound) (hbound : s = 0 → bound) :
    Exact turn p area ↔ s = 0 ∨ (∀ q, p.cell q = false) ∧ bound := by
  have hshift : (∀ d, area.cell (area.center + turn d) = p.cell (p.center + d)) ↔
      s = 0 ∨ ∀ q, p.cell q = false := by
    simp only [hcells]
    exact shift_iff
  constructor
  · intro hexact
    exact (hshift.mp hexact.cells).imp_right fun hempty => ⟨hempty, hcenter.mp hexact.center⟩
  · rintro (hs | ⟨hempty, hin⟩)
    · exact ⟨hcenter.mpr (hbound hs), hshift.mpr (Or.inl hs)⟩
    · exact ⟨hcenter.mpr hin, hshift.mpr (Or.inr hempty)⟩

/-- Where the north-east area is exact. -/
theorem Draws.exists_northEast (h : p.Draws area) :
    ∃ turned, copyArea area (outputOf area) .MIRROR = some turned ∧
      (Exact mirror p turned ↔
        p.rows = p.cols ∨ (∀ q, p.cell q = false) ∧ p.center.2 < p.rows) := by
  obtain ⟨turned, hturned, hsize, hc, hcell⟩ :=
    exists_mirror (fun _ => rfl) (le_outputOf area).1 (le_outputOf area).2
  refine ⟨turned, hturned, ?_⟩
  rw [h.rows, h.cols, h.center] at hcell
  have hinside := p.center_inside
  have hcenter : turned.Inside turned.center ↔ p.center.2 < p.rows := by
    rw [hsize.inside, h.inside_outputOf, hc, h.rows, h.center]
    dsimp only
    omega
  have hzero : (0, (p.cols : ℤ) - p.rows) = (0 : ℤ × ℤ) ↔ p.rows = p.cols := by
    rw [Prod.mk_eq_zero]
    omega
  rw [exact_iff_of_shift (fun d => (hcell d).trans (h.cell _)) hcenter, hzero]
  intro heq
  have := hzero.mp heq
  omega

/-- Where the south-west area is exact, and its mirror at the south-east with it. -/
theorem Draws.exists_southWest (h : p.Draws area) :
    ∃ turned, copyArea area (outputOf area) .FLIP = some turned ∧
      (Exact flip p turned ↔
        p.rows = p.cols ∨ (∀ q, p.cell q = false) ∧ p.center.1 < p.cols) ∧
      ∃ twice, copyArea turned (outputOf area) .MIRROR = some twice ∧
        (Exact flip p turned → Exact (fun d => mirror (flip d)) p twice) := by
  obtain ⟨turned, hturned, hsize, hc, hcell⟩ :=
    exists_flip (fun _ => rfl) (le_outputOf area).1 (le_outputOf area).2
  rw [h.rows, h.cols, h.center] at hcell
  have hinside := p.center_inside
  have hcenter : turned.Inside turned.center ↔ p.center.1 < p.cols := by
    rw [hsize.inside, h.inside_outputOf, hc, h.cols, h.center]
    dsimp only
    omega
  have hzero : ((p.rows : ℤ) - p.cols, 0) = (0 : ℤ × ℤ) ↔ p.rows = p.cols := by
    rw [Prod.mk_eq_zero]
    omega
  refine ⟨turned, hturned, ?_, ?_⟩
  · rw [exact_iff_of_shift (fun d => (hcell d).trans (h.cell _)) hcenter, hzero]
    intro heq
    have := hzero.mp heq
    omega
  obtain ⟨twice, htwice, htwiceSize, hct, hcellt⟩ :=
    exists_mirror (fun _ => rfl) hsize.rows.le hsize.cols.le
  have hsquare : turned.rows = turned.cols := hsize.rows.trans hsize.cols.symm
  refine ⟨twice, htwice, fun hexact => ⟨?_, fun d => ?_⟩⟩
  · have hturn := hsize.inside.mp hexact.center
    rw [htwiceSize.inside, hct, hsize.rows]
    rw [hc, h.cols, h.center] at hturn ⊢
    unfold MatrixArea.Inside at hturn ⊢
    unfold outputOf at hturn ⊢
    rw [h.rows, h.cols] at hturn ⊢
    dsimp only at hturn ⊢
    omega
  · rw [hcellt, hsquare, sub_self, ← Prod.zero_eq_mk, add_zero, hexact.cells]

end Turns

end Pattern

namespace AreaCombat

/-- How the vectors from the centre are turned for a direction. -/
def turn : Direction → ℤ × ℤ → ℤ × ℤ
  | .NORTH | .NORTHWEST => id
  | .EAST => fun d => (d.2, -d.1)
  | .SOUTH | .SOUTHEAST => fun d => (-d.1, -d.2)
  | .WEST => fun d => (-d.2, d.1)
  | .NORTHEAST => fun d => (d.1, -d.2)
  | .SOUTHWEST => fun d => (-d.1, d.2)

/-- Every direction has the pattern of its kind, turned for it. -/
def Exact (p q : Pattern) (combat : AreaCombat) : Prop :=
  ∀ dir, ∃ area, combat.areas dir = some area ∧
    Pattern.Exact (turn dir) (if dir.isDiagonal then q else p) area

/-- Both setups end without a write outside of a matrix, and every area is exact. -/
def SetUpExact (p q : Pattern) (combat : AreaCombat) : Prop :=
  ∃ set, ((combat.setupArea p.list p.rows).bind fun set => set.setupExtArea q.list q.rows) =
    some set ∧ set.Exact p q

variable {p q : Pattern} {combat : AreaCombat}

/-- The straight areas are exact for every pattern. -/
theorem exists_setupArea (p : Pattern) (combat : AreaCombat) :
    ∃ set, combat.setupArea p.list p.rows = some set ∧ ∀ dir, dir.isDiagonal = false →
      ∃ area, set.areas dir = some area ∧ Pattern.Exact (turn dir) p area := by
  obtain ⟨area, harea, hdraws⟩ := p.exists_createArea
  have hturn : ∀ op ∈ [MatrixOperation.ROTATE90, .ROTATE180, .ROTATE270], ∃ turned,
      copyArea area (outputOf area) op = some turned ∧ Pattern.Exact op.rotate p turned :=
    fun op hop => hdraws.exists_rotation hop
  obtain ⟨east, heast, heastExact⟩ := hturn .ROTATE90 (by decide)
  obtain ⟨south, hsouth, hsouthExact⟩ := hturn .ROTATE180 (by decide)
  obtain ⟨west, hwest, hwestExact⟩ := hturn .ROTATE270 (by decide)
  have hrotate : MatrixOperation.ROTATE90.rotate = turn .EAST ∧
      MatrixOperation.ROTATE180.rotate = turn .SOUTH ∧
      MatrixOperation.ROTATE270.rotate = turn .WEST := by
    refine ⟨funext fun d => ?_, funext fun d => ?_, funext fun d => ?_⟩ <;>
      simp [MatrixOperation.rotate, MatrixOperation.angle, turn]
  refine ⟨_, by rw [setupArea, harea, Option.bind_some, hsouth, Option.bind_some, heast,
    Option.bind_some, hwest, Option.bind_some], fun dir hdir => ?_⟩
  cases dir with
  | NORTH => exact ⟨area, rfl, hdraws.exact⟩
  | EAST => exact ⟨east, rfl, hrotate.1 ▸ heastExact⟩
  | SOUTH => exact ⟨south, rfl, hrotate.2.1 ▸ hsouthExact⟩
  | WEST => exact ⟨west, rfl, hrotate.2.2 ▸ hwestExact⟩
  | SOUTHWEST => cases hdir
  | SOUTHEAST => cases hdir
  | NORTHWEST => cases hdir
  | NORTHEAST => cases hdir

/-- The diagonal areas are exact for a square pattern, and for an empty one with its centre in the
square. The straight ones are not touched. -/
theorem exists_setupExtArea (q : Pattern) (combat : AreaCombat) :
    ∃ set, combat.setupExtArea q.list q.rows = some set ∧
      (∀ dir, dir.isDiagonal = false → set.areas dir = combat.areas dir) ∧
      ((∀ dir, dir.isDiagonal = true →
          ∃ area, set.areas dir = some area ∧ Pattern.Exact (turn dir) q area) ↔
        q.rows = q.cols ∨
          (∀ d, q.cell d = false) ∧ q.center.1 < q.cols ∧ q.center.2 < q.rows) := by
  obtain ⟨area, harea, hdraws⟩ := q.exists_createArea
  obtain ⟨ne, hne, hneExact⟩ := hdraws.exists_northEast
  obtain ⟨sw, hsw, hswExact, se, hse, hseExact⟩ := hdraws.exists_southWest
  have hlist : q.list.isEmpty = false := by
    have := q.center_lt
    rw [List.isEmpty_eq_false_iff, ← List.length_pos_iff]
    omega
  refine ⟨_, by rw [setupExtArea, hlist, if_neg Bool.false_ne_true, harea, Option.bind_some, hne,
    Option.bind_some, hsw, Option.bind_some, hse, Option.bind_some], fun dir hdir => ?_, ?_⟩
  · cases dir <;> first | rfl | cases hdir
  constructor
  · intro h
    obtain ⟨ne', hne', hexact⟩ := h .NORTHEAST rfl
    obtain ⟨sw', hsw', hexact'⟩ := h .SOUTHWEST rfl
    obtain rfl : ne = ne' := Option.some_inj.mp hne'
    obtain rfl : sw = sw' := Option.some_inj.mp hsw'
    obtain heq | ⟨hempty, hcols⟩ := hswExact.mp hexact'
    · exact Or.inl heq
    · exact (hneExact.mp hexact).imp_right fun hrows => ⟨hempty, hcols, hrows.2⟩
  · intro h dir hdir
    have hsw := hswExact.mpr (h.imp_right fun h => ⟨h.1, h.2.1⟩)
    cases dir with
    | NORTHWEST => exact ⟨area, rfl, hdraws.exact⟩
    | NORTHEAST => exact ⟨ne, rfl, hneExact.mpr (h.imp_right fun h => ⟨h.1, h.2.2⟩)⟩
    | SOUTHWEST => exact ⟨sw, rfl, hsw⟩
    | SOUTHEAST => exact ⟨se, rfl, hseExact hsw⟩
    | NORTH => cases hdir
    | EAST => cases hdir
    | SOUTH => cases hdir
    | WEST => cases hdir

/-- The pattern of the diagonals is square, or empty with its centre in the square. -/
def SquareOrEmpty (q : Pattern) : Prop :=
  q.rows = q.cols ∨ (∀ d, q.cell d = false) ∧ q.center.1 < q.cols ∧ q.center.2 < q.rows

theorem SetUpExact.squareOrEmpty (h : SetUpExact p q combat) : SquareOrEmpty q := by
  obtain ⟨straight, hstraight, -⟩ := exists_setupArea p combat
  obtain ⟨set, hset, -, hiff⟩ := exists_setupExtArea q straight
  obtain ⟨set', hset', hexact⟩ := h
  rw [hstraight, Option.bind_some, hset, Option.some_inj] at hset'
  subst hset'
  refine hiff.mp fun dir hdir => ?_
  have hdiagonal := hexact dir
  rwa [if_pos hdir] at hdiagonal

theorem SquareOrEmpty.setUpExact (h : SquareOrEmpty q) (p : Pattern) (combat : AreaCombat) :
    SetUpExact p q combat := by
  obtain ⟨straight, hstraight, hexact⟩ := exists_setupArea p combat
  obtain ⟨set, hset, hkept, hiff⟩ := exists_setupExtArea q straight
  refine ⟨set, by rw [hstraight, Option.bind_some, hset], fun dir => ?_⟩
  by_cases hdir : dir.isDiagonal = true
  · rw [if_pos hdir]
    exact hiff.mpr h dir hdir
  · rw [if_neg hdir, hkept dir (Bool.eq_false_of_not_eq_true hdir)]
    exact hexact dir (Bool.eq_false_of_not_eq_true hdir)

/-- The straight areas are exact for every pattern, the diagonal ones only where the columns and
the rows are as many. -/
theorem setUpExact_iff (p q : Pattern) (combat : AreaCombat) : SetUpExact p q combat ↔
    q.rows = q.cols ∨
      (∀ d, q.cell d = false) ∧ q.center.1 < q.cols ∧ q.center.2 < q.rows :=
  ⟨SetUpExact.squareOrEmpty, fun h => SquareOrEmpty.setUpExact h p combat⟩

/-- Two tiles in a row, the centre on the first of them. -/
def row : Pattern where
  list := [3, 1]
  rows := 1
  cols := 2
  length_eq := rfl
  centerIndex := 0
  center_lt := by decide
  center_iff i v hv := by
    match i with
    | 0 => cases hv; decide
    | 1 => cases hv; decide
    | i + 2 => cases hv

theorem not_setUpExact_row : ¬ SetUpExact row row {} := by
  intro h
  obtain heq | ⟨hempty, -⟩ := h.squareOrEmpty
  · cases heq
  · have hset : row.cell (0, 0) = true := by decide
    rw [hempty] at hset
    cases hset

end AreaCombat

end OTServBR
