import OTServBR.Lib.Raster
import OTServBR.Map.Path

/-! # Lines of sight

A projectile flies along a raster line over the tiles between two positions,
from the upper of the two floors, and then falls straight down. The equation of
the line is evaluated in 32-bit integers. Its products may wrap; the errors near the
line are small, so their values are right all the same.
-/

namespace OTServBR

namespace Position

def getOffsetX (p1 p2 : Position) : ℤ := p1.x.toNat - p2.x.toNat
def getOffsetY (p1 p2 : Position) : ℤ := p1.y.toNat - p2.y.toNat

end Position

/-- What the line of sight asks of a tile. -/
structure SightTile where
  /-- `hasProperty(CONST_PROP_BLOCKPROJECTILE)`. -/
  blockProjectile : Bool
  getThingCount : ℕ
  deriving DecidableEq, Repr

/-- `mx` and `my`: the way from one coordinate to another. -/
def sign (u v : UInt16) : ℤ := if u < v then 1 else if u = v then 0 else -1

/-- The constants of a line. -/
structure SightLine where
  destination : Position
  mx : ℤ
  my : ℤ
  A : Int32
  B : Int32
  C : Int32

namespace SightLine

def ofEnds (start destination : Position) : SightLine :=
  let A := Int32.ofInt (destination.getOffsetY start)
  let B := Int32.ofInt (start.getOffsetX destination)
  { destination
    mx := sign start.x destination.x
    my := sign start.y destination.y
    A
    B
    C := -(A * .ofInt destination.x.toNat + B * .ofInt destination.y.toNat) }

variable (l : SightLine) (start : Position)

/-- `std::abs(A * x + B * y + C)`. -/
def move (x y : ℤ) : Int32 := (l.A * .ofInt x + l.B * .ofInt y + l.C).abs

def move_hor : Int32 := l.move (start.x.toNat + l.mx) start.y.toNat
def move_ver : Int32 := l.move start.x.toNat (start.y.toNat + l.my)
def move_cross : Int32 := l.move (start.x.toNat + l.mx) (start.y.toNat + l.my)

def stepY : Position :=
  if start.y ≠ l.destination.y ∧
      (start.x = l.destination.x ∨ l.move_hor start > l.move_ver start ∨
        l.move_hor start > l.move_cross start) then
    start.shift (0, l.my)
  else start

/-- The second choice of a pass. It takes the position that the first has led to, and the errors
from before it. -/
def stepX (moved : Position) : Position :=
  if moved.x ≠ l.destination.x ∧
      (moved.y = l.destination.y ∨ l.move_ver start > l.move_hor start ∨
        l.move_ver start > l.move_cross start) then
    moved.shift (l.mx, 0)
  else moved

/-- One pass of the first loop, up to the tile. -/
def step : Position := l.stepX start (l.stepY start)

end SightLine

section Loops

variable (getTile : UInt16 → UInt16 → UInt8 → Option SightTile)

def blocksProjectile (pos : Position) : Bool :=
  match getTile pos.x pos.y pos.z with
  | some tile => tile.blockProjectile
  | none => false

def hasThings (pos : Position) : Bool :=
  match getTile pos.x pos.y pos.z with
  | some tile => 0 < tile.getThingCount
  | none => false

/-- The first loop: the tile it ends on, or none inside where a tile blocks. -/
def sightWalk (l : SightLine) : ℕ → Position → Option (Option Position)
  | 0, _ => none
  | fuel + 1, start =>
    if start.x ≠ l.destination.x ∨ start.y ≠ l.destination.y then
      let start := l.step start
      if blocksProjectile getTile start then some none else sightWalk l fuel start
    else some (some start)

/-- The second loop, from floor to floor. -/
def sightFall (destination : Position) : ℕ → Position → Option Bool
  | 0, _ => none
  | fuel + 1, start =>
    if start.z ≠ destination.z then
      if hasThings getTile start then some false
      else sightFall destination fuel { start with z := start.z + 1 }
    else some true

/-- The end on the upper floor. -/
def sightStart (fromPos toPos : Position) : Position :=
  if fromPos.z > toPos.z then toPos else fromPos

def sightDestination (fromPos toPos : Position) : Position :=
  if fromPos.z > toPos.z then fromPos else toPos

def checkSightLine (fuel : ℕ) (fromPos toPos : Position) : Option Bool :=
  if fromPos = toPos then some true
  else
    let start := sightStart fromPos toPos
    let destination := sightDestination fromPos toPos
    match sightWalk getTile (.ofEnds start destination) fuel start with
    | none => none
    | some none => some false
    | some (some start) => sightFall getTile destination fuel start

end Loops

/-! ## The equation of the line -/

theorem toInt_abs_ofInt {n : ℤ} (h : n.natAbs < 2 ^ 31) :
    (Int32.ofInt n).abs.toInt = n.natAbs := by
  have hn : (Int32.ofInt n).toInt = n := Int32.toInt_ofInt_of_le (by omega) (by omega)
  have hne : (Int32.ofInt n).toBitVec ≠ BitVec.intMin 32 := by
    intro hmin
    have hmin' : (Int32.ofInt n).toInt = (BitVec.intMin 32).toInt := congrArg BitVec.toInt hmin
    rw [hn] at hmin'
    have : (BitVec.intMin 32).toInt = -2 ^ 31 := by decide
    omega
  have habs := BitVec.toInt_abs_eq_natAbs_of_ne_intMin hne
  have hn' : (Int32.ofInt n).toBitVec.toInt = n := hn
  rw [hn'] at habs
  exact habs

namespace SightLine

variable {start destination pos : Position}

theorem move_eq (x y : ℤ) :
    (ofEnds start destination).move x y =
      (Int32.ofInt (destination.getOffsetY start * (x - destination.x.toNat) +
        start.getOffsetX destination * (y - destination.y.toNat))).abs := by
  simp only [move, ofEnds, Int32.ofInt_add, Int32.ofInt_mul, Int32.ofInt_sub]
  congr 1
  grind

end SightLine

/-! ## One axis -/

section Axis

variable {u v p : UInt16} {n : ℕ}

theorem sign_cases (u v : UInt16) :
    (sign u v = 1 ∧ u.toNat < v.toNat) ∨ (sign u v = 0 ∧ u.toNat = v.toNat) ∨
    (sign u v = -1 ∧ v.toNat < u.toNat) := by
  unfold sign
  split_ifs with hlt heq
  · exact Or.inl ⟨rfl, hlt⟩
  · exact Or.inr (Or.inl ⟨rfl, congrArg UInt16.toNat heq⟩)
  · rw [UInt16.lt_iff_toNat_lt] at hlt
    rw [← UInt16.toNat_inj] at heq
    exact Or.inr (Or.inr ⟨rfl, by omega⟩)

/-- A coordinate is so many fields before the destination's, on the way from the start's. -/
structure Before (u v p : UInt16) (n : ℕ) : Prop where
  eq : (p.toNat : ℤ) = v.toNat - sign u v * n
  le : n ≤ ((u.toNat : ℤ) - v.toNat).natAbs

theorem before_start (u v : UInt16) : Before u v u ((u.toNat : ℤ) - v.toNat).natAbs := by
  refine ⟨?_, le_rfl⟩
  rcases sign_cases u v with ⟨h, hlt⟩ | ⟨h, heq⟩ | ⟨h, hlt⟩ <;> rw [h] <;> omega

theorem Before.eq_iff (h : Before u v p n) : p = v ↔ n = 0 := by
  have he := h.eq
  have hle := h.le
  rw [← UInt16.toNat_inj]
  rcases sign_cases u v with ⟨hs, hlt⟩ | ⟨hs, heq⟩ | ⟨hs, hlt⟩ <;> rw [hs] at he <;> omega

theorem Before.step (h : Before u v p n) (hn : n ≠ 0) :
    Before u v (UInt16.ofInt (p.toNat + sign u v)) (n - 1) := by
  have he := h.eq
  have hle := h.le
  have hu := u.toNat_lt
  have hv := v.toNat_lt
  refine ⟨?_, by omega⟩
  rw [Position.toNat_ofInt]
  rcases sign_cases u v with ⟨hs, hlt⟩ | ⟨hs, heq⟩ | ⟨hs, hlt⟩ <;> rw [hs] at he ⊢ <;> omega

/-- The offset between the ends has the sign of the way. -/
theorem sign_mul_dist (u v : UInt16) :
    sign u v * (((u.toNat : ℤ) - v.toNat).natAbs : ℤ) = v.toNat - u.toNat := by
  rcases sign_cases u v with ⟨hs, hlt⟩ | ⟨hs, heq⟩ | ⟨hs, hlt⟩ <;> rw [hs] <;> omega

theorem Before.sign_sq (h : Before u v p n) (hn : n ≠ 0) : sign u v * sign u v = 1 := by
  have hle := h.le
  rcases sign_cases u v with ⟨hs, hlt⟩ | ⟨hs, heq⟩ | ⟨hs, hlt⟩ <;> rw [hs] <;> omega

end Axis

namespace SightLine

variable {start destination pos : Position} {r : Raster.Rest}

/-- What is left of the line at a position. -/
structure Left (start destination pos : Position) (r : Raster.Rest) : Prop where
  x : Before start.x destination.x pos.x r.x
  y : Before start.y destination.y pos.y r.y

theorem left_start (start destination : Position) :
    Left start destination start
      ⟨start.getDistanceX destination, start.getDistanceY destination⟩ :=
  ⟨before_start _ _, before_start _ _⟩

theorem getOffsetY_eq (start destination : Position) :
    destination.getOffsetY start =
      sign start.y destination.y * start.getDistanceY destination :=
  (sign_mul_dist start.y destination.y).symm

theorem getOffsetX_eq (start destination : Position) :
    start.getOffsetX destination =
      -(sign start.x destination.x * start.getDistanceX destination) := by
  have hmul := sign_mul_dist start.x destination.x
  unfold Position.getOffsetX Position.getDistanceX
  omega

theorem getDistanceX_lt (p1 p2 : Position) : p1.getDistanceX p2 < 2 ^ 16 := by
  have h1 := p1.x.toNat_lt
  have h2 := p2.x.toNat_lt
  unfold Position.getDistanceX
  omega

theorem getDistanceY_lt (p1 p2 : Position) : p1.getDistanceY p2 < 2 ^ 16 := by
  have h1 := p1.y.toNat_lt
  have h2 := p2.y.toNat_lt
  unfold Position.getDistanceY
  omega

section Errors

variable (h : Left start destination pos r) (hx : r.x ≠ 0) (hy : r.y ≠ 0)
include h hx hy

theorem Left.natAbs_signs :
    (sign start.x destination.x * sign start.y destination.y).natAbs = 1 := by
  have hsq : (sign start.x destination.x * sign start.y destination.y) *
      (sign start.x destination.x * sign start.y destination.y) = 1 := by
    rw [mul_mul_mul_comm, h.x.sign_sq hx, h.y.sign_sq hy, one_mul]
  exact Int.isUnit_iff_natAbs_eq.mp (IsUnit.of_mul_eq_one _ hsq)

/-- The equation of the code is the one of the walk, but for a sign. -/
theorem Left.toInt_move {a b e : ℤ} (hbound : e.natAbs < 2 ^ 31)
    (he : Raster.error (start.getDistanceX destination) (start.getDistanceY destination) r +
      start.getDistanceY destination * a - start.getDistanceX destination * b = e) :
    ((ofEnds start destination).move (pos.x.toNat + sign start.x destination.x * a)
      (pos.y.toNat + sign start.y destination.y * b)).toInt = e.natAbs := by
  have hvalue : destination.getOffsetY start *
        (pos.x.toNat + sign start.x destination.x * a - destination.x.toNat) +
      start.getOffsetX destination *
        (pos.y.toNat + sign start.y destination.y * b - destination.y.toNat) =
      sign start.x destination.x * sign start.y destination.y * e := by
    rw [getOffsetX_eq, getOffsetY_eq, h.x.eq, h.y.eq, ← he, Raster.error]
    ring
  have hunit := h.natAbs_signs hx hy
  rw [move_eq, hvalue, toInt_abs_ofInt, Int.natAbs_mul, hunit, one_mul]
  rwa [Int.natAbs_mul, hunit, one_mul]

variable (hnear : Raster.Near (start.getDistanceX destination) (start.getDistanceY destination) r)
include hnear

theorem Left.toInt_move_hor : ((ofEnds start destination).move_hor pos).toInt =
    Raster.hor (start.getDistanceX destination) (start.getDistanceY destination) r := by
  have hW := getDistanceX_lt start destination
  have hH := getDistanceY_lt start destination
  have he := hnear.error_le
  have hmove := h.toInt_move hx hy (a := 1) (b := 0) (by omega) rfl
  simp only [mul_one, mul_zero, add_zero, sub_zero] at hmove
  exact hmove

theorem Left.toInt_move_ver : ((ofEnds start destination).move_ver pos).toInt =
    Raster.ver (start.getDistanceX destination) (start.getDistanceY destination) r := by
  have hW := getDistanceX_lt start destination
  have hH := getDistanceY_lt start destination
  have he := hnear.error_le
  have hmove := h.toInt_move hx hy (a := 0) (b := 1) (by omega) rfl
  simp only [mul_one, mul_zero, add_zero] at hmove
  exact hmove

theorem Left.toInt_move_cross : ((ofEnds start destination).move_cross pos).toInt =
    Raster.cross (start.getDistanceX destination) (start.getDistanceY destination) r := by
  have hW := getDistanceX_lt start destination
  have hH := getDistanceY_lt start destination
  have he := hnear.error_le
  have hmove := h.toInt_move hx hy (a := 1) (b := 1) (by omega) rfl
  simp only [mul_one] at hmove
  exact hmove

end Errors

theorem Left.shift_x (h : Left start destination pos r) (hx : r.x ≠ 0) :
    Left start destination (pos.shift (sign start.x destination.x, 0)) ⟨r.x - 1, r.y⟩ := by
  refine ⟨h.x.step hx, ?_⟩
  simp only [Position.shift, add_zero, Position.ofInt_toNat]
  exact h.y

theorem Left.shift_y (h : Left start destination pos r) (hy : r.y ≠ 0) :
    Left start destination (pos.shift (0, sign start.y destination.y)) ⟨r.x, r.y - 1⟩ := by
  refine ⟨?_, h.y.step hy⟩
  simp only [Position.shift, add_zero, Position.ofInt_toNat]
  exact h.x

/-- A choice of the code and a choice of the walk that agree. -/
theorem Left.ite {c d : Prop} [Decidable c] [Decidable d] {p q : Position} {a b : ℕ}
    (f : ℕ → Raster.Rest) (hcd : c ↔ d) (hp : d → Left start destination p (f a))
    (hq : Left start destination q (f b)) :
    Left start destination (if c then p else q) (f (if d then a else b)) := by
  by_cases hd : d
  · rw [if_pos hd, if_pos (hcd.mpr hd)]
    exact hp hd
  · rw [if_neg hd, if_neg (mt hcd.mp hd)]
    exact hq

section Step

variable (h : Left start destination pos r)
  (hnear : Raster.Near (start.getDistanceX destination) (start.getDistanceY destination) r)
include h hnear

theorem Left.stepY :
    Left start destination ((ofEnds start destination).stepY pos)
      ⟨r.x, Raster.nextY (start.getDistanceX destination) (start.getDistanceY destination) r⟩ := by
  rw [SightLine.stepY, Raster.nextY]
  refine Left.ite (fun y => ⟨r.x, y⟩) ?_ (fun hc => h.shift_y hc.1) h
  rw [ne_eq, ofEnds, h.y.eq_iff, h.x.eq_iff]
  refine and_congr_right fun hy => or_congr_right' fun hx => ?_
  rw [gt_iff_lt, gt_iff_lt, Int32.lt_iff_toInt_lt, Int32.lt_iff_toInt_lt, ← ofEnds,
    h.toInt_move_hor hx hy hnear, h.toInt_move_ver hx hy hnear, h.toInt_move_cross hx hy hnear,
    Nat.cast_lt, Nat.cast_lt]

theorem Left.stepX {moved : Position} {n : ℕ} (hn : n ≤ r.y)
    (hmoved : Left start destination moved ⟨r.x, n⟩) :
    Left start destination ((ofEnds start destination).stepX pos moved)
      ⟨Raster.nextX (start.getDistanceX destination) (start.getDistanceY destination) r n, n⟩ := by
  rw [SightLine.stepX, Raster.nextX]
  refine Left.ite (fun x => ⟨x, n⟩) ?_ (fun hc => hmoved.shift_x hc.1) hmoved
  rw [ne_eq, ofEnds, hmoved.y.eq_iff, hmoved.x.eq_iff]
  refine and_congr_right fun hx => or_congr_right' fun hn0 => ?_
  have hy : r.y ≠ 0 := fun hy => hn0 (Nat.eq_zero_of_le_zero (hy ▸ hn))
  rw [gt_iff_lt, gt_iff_lt, Int32.lt_iff_toInt_lt, Int32.lt_iff_toInt_lt, ← ofEnds,
    h.toInt_move_hor hx hy hnear, h.toInt_move_ver hx hy hnear, h.toInt_move_cross hx hy hnear,
    Nat.cast_lt, Nat.cast_lt]

/-- A pass of the loop is a step of the walk. -/
theorem Left.step :
    Left start destination ((ofEnds start destination).step pos)
      (Raster.step (start.getDistanceX destination) (start.getDistanceY destination) r) :=
  h.stepX hnear Raster.nextY_le (h.stepY hnear)

end Step

/-- The way that a run of the loop has left is the way that the walk has left. -/
theorem left_run (start destination : Position) (n : ℕ) :
    Left start destination ((ofEnds start destination).step^[n] start)
      ((Raster.step (start.getDistanceX destination) (start.getDistanceY destination))^[n]
        ⟨start.getDistanceX destination, start.getDistanceY destination⟩) := by
  induction n with
  | zero => exact left_start start destination
  | succ n ih =>
    rw [Function.iterate_succ_apply', Function.iterate_succ_apply']
    exact ih.step (Raster.near_start.run n)

end SightLine

/-! ## True raster lines -/

/-- The row in which the ideal line through two positions crosses a column. -/
def lineY (start destination : Position) (x : ℚ) : ℚ :=
  start.y.toNat + (x - start.x.toNat) * ((destination.y.toNat - start.y.toNat) /
    (destination.x.toNat - start.x.toNat))

def lineX (start destination : Position) (y : ℚ) : ℚ :=
  start.x.toNat + (y - start.y.toNat) * ((destination.x.toNat - start.x.toNat) /
    (destination.y.toNat - start.y.toNat))

/-- How far the centre of a tile is from the ideal line, along the minor axis. -/
def deviation (start destination pos : Position) : ℚ :=
  if start.getDistanceY destination ≤ start.getDistanceX destination then
    |pos.y.toNat - lineY start destination pos.x.toNat|
  else |pos.x.toNat - lineX start destination pos.y.toNat|

/-- A move by at most one tile per axis, towards the destination and not past it. -/
structure Advances (destination p q : Position) : Prop where
  x : p.getDistanceX destination = p.getDistanceX q + q.getDistanceX destination
  y : p.getDistanceY destination = p.getDistanceY q + q.getDistanceY destination
  x_le : p.getDistanceX q ≤ 1
  y_le : p.getDistanceY q ≤ 1

/-- The first `n` steps over the tiles are a raster line. -/
structure RasterLine (start destination : Position) (tile : ℕ → Position) (n : ℕ) : Prop where
  first : tile 0 = start
  under_way : ∀ k < n, ¬((tile k).x = destination.x ∧ (tile k).y = destination.y)
  arrives : (tile n).x = destination.x ∧ (tile n).y = destination.y
  advances : ∀ k < n, Advances destination (tile k) (tile (k + 1))
  floor : ∀ k ≤ n, (tile k).z = start.z
  near : ∀ k ≤ n, deviation start destination (tile k) ≤ 1 / 2

section Axis

variable {u v p q : UInt16} {m n : ℕ}

theorem Before.dist_end (h : Before u v p n) : ((p.toNat : ℤ) - v.toNat).natAbs = n := by
  have he := h.eq
  have hle := h.le
  rcases sign_cases u v with ⟨hs, hlt⟩ | ⟨hs, heq⟩ | ⟨hs, hlt⟩ <;> rw [hs] at he <;> omega

theorem Before.dist (hp : Before u v p n) (hq : Before u v q m) (h : m ≤ n) :
    ((p.toNat : ℤ) - q.toNat).natAbs = n - m := by
  have hep := hp.eq
  have heq := hq.eq
  have hle := hp.le
  rcases sign_cases u v with ⟨hs, hlt⟩ | ⟨hs, heq'⟩ | ⟨hs, hlt⟩ <;> rw [hs] at hep heq <;> omega

theorem cast_sub_ends (u v : UInt16) :
    (v.toNat : ℚ) - u.toNat = sign u v * (((u.toNat : ℤ) - v.toNat).natAbs : ℚ) := by
  have h := congrArg (Int.cast (R := ℚ)) (sign_mul_dist u v)
  rw [Int.cast_mul, Int.cast_natCast, Int.cast_sub, Int.cast_natCast, Int.cast_natCast] at h
  exact h.symm

theorem Before.cast_sub_start (h : Before u v p n) :
    (p.toNat : ℚ) - u.toNat =
      sign u v * ((((u.toNat : ℤ) - v.toNat).natAbs : ℚ) - n) := by
  have hdist := cast_sub_ends u v
  have hp : (p.toNat : ℚ) = v.toNat - sign u v * n := by
    exact_mod_cast h.eq
  linear_combination hp + hdist

/-- The distance between a coordinate and the crossing of the ideal line, from what is left along
both axes. -/
theorem Before.crossing {u' v' p' : UInt16} {n' : ℕ} (h : Before u v p n)
    (h' : Before u' v' p' n')
    (hbound : |(((u'.toNat : ℤ) - v'.toNat).natAbs - n' : ℚ) -
      (((u.toNat : ℤ) - v.toNat).natAbs - n) * ((u'.toNat : ℤ) - v'.toNat).natAbs /
        ((u.toNat : ℤ) - v.toNat).natAbs| ≤ 1 / 2) :
    |(p'.toNat : ℚ) - (u'.toNat + (p.toNat - u.toNat) * ((v'.toNat - u'.toNat) /
      (v.toNat - u.toNat)))| ≤ 1 / 2 := by
  have hcross : (p'.toNat : ℚ) - (u'.toNat + (p.toNat - u.toNat) * ((v'.toNat - u'.toNat) /
      (v.toNat - u.toNat))) = sign u' v' * ((((u'.toNat : ℤ) - v'.toNat).natAbs - n' : ℚ) -
        (((u.toNat : ℤ) - v.toNat).natAbs - n) * ((u'.toNat : ℤ) - v'.toNat).natAbs /
          ((u.toNat : ℤ) - v.toNat).natAbs) := by
    rw [← sub_sub, h'.cast_sub_start, h.cast_sub_start, cast_sub_ends, cast_sub_ends]
    rcases sign_cases u v with ⟨hs, hlt⟩ | ⟨hs, heq⟩ | ⟨hs, hlt⟩
    · rw [hs]
      ring
    · have hzero : ((u.toNat : ℤ) - v.toNat).natAbs = 0 := by omega
      simp [hs, hzero]
    · rw [hs]
      ring
  have hsign : |(sign u' v' : ℚ)| ≤ 1 := by
    rcases sign_cases u' v' with ⟨hs, -⟩ | ⟨hs, -⟩ | ⟨hs, -⟩ <;> simp [hs]
  rw [hcross, abs_mul]
  calc |(sign u' v' : ℚ)| * _ ≤ 1 * (1 / 2) := by gcongr
    _ = 1 / 2 := one_mul _

end Axis

namespace SightLine

variable {start destination pos q : Position} {r r' : Raster.Rest}

theorem Left.advances (h : Left start destination pos r) (h' : Left start destination q r')
    (hx : r'.x ≤ r.x) (hx' : r.x ≤ r'.x + 1) (hy : r'.y ≤ r.y) (hy' : r.y ≤ r'.y + 1) :
    Advances destination pos q := by
  have hdx : pos.getDistanceX q = r.x - r'.x := h.x.dist h'.x hx
  have hdy : pos.getDistanceY q = r.y - r'.y := h.y.dist h'.y hy
  refine ⟨?_, ?_, by omega, by omega⟩
  · calc pos.getDistanceX destination = r.x := h.x.dist_end
      _ = (r.x - r'.x) + r'.x := by omega
      _ = _ := by rw [hdx]; exact congrArg _ h'.x.dist_end.symm
  · calc pos.getDistanceY destination = r.y := h.y.dist_end
      _ = (r.y - r'.y) + r'.y := by omega
      _ = _ := by rw [hdy]; exact congrArg _ h'.y.dist_end.symm

theorem Left.deviation_le (h : Left start destination pos r)
    (hnear : Raster.Near (start.getDistanceX destination) (start.getDistanceY destination) r) :
    deviation start destination pos ≤ 1 / 2 := by
  unfold deviation
  split_ifs with hwide
  · exact h.x.crossing h.y (hnear.row_le hwide)
  · exact h.y.crossing h.x (hnear.swap.row_le (Nat.le_of_not_le hwide))

theorem Left.arrived_iff (h : Left start destination pos r) :
    (pos.x = destination.x ∧ pos.y = destination.y) ↔ r = ⟨0, 0⟩ := by
  rw [h.x.eq_iff, h.y.eq_iff, Raster.Rest.ext_iff]

theorem step_z (l : SightLine) (pos : Position) : (l.step pos).z = pos.z := by
  unfold step stepX stepY
  split_ifs <;> rfl

theorem run_z (l : SightLine) (pos : Position) (n : ℕ) : (l.step^[n] pos).z = pos.z := by
  induction n with
  | zero => rfl
  | succ n ih => rw [Function.iterate_succ_apply', step_z, ih]

theorem run_arrived_iff (start destination : Position) (n : ℕ) :
    (((ofEnds start destination).step^[n] start).x = destination.x ∧
      ((ofEnds start destination).step^[n] start).y = destination.y) ↔
    max (start.getDistanceX destination) (start.getDistanceY destination) ≤ n := by
  rw [(left_run start destination n).arrived_iff, Raster.run_eq_zero_iff]

theorem run_rasterLine (start destination : Position) :
    RasterLine start destination (fun k => (ofEnds start destination).step^[k] start)
      (max (start.getDistanceX destination) (start.getDistanceY destination)) where
  first := rfl
  under_way k hk := mt (run_arrived_iff start destination k).mp (Nat.not_le_of_lt hk)
  arrives := (run_arrived_iff start destination _).mpr le_rfl
  advances k _ := by
    have hstep := left_run start destination (k + 1)
    rw [Function.iterate_succ_apply' (Raster.step _ _)] at hstep
    exact (left_run start destination k).advances hstep (Raster.nextX_le _) (Raster.le_nextX _)
      Raster.nextY_le Raster.le_nextY
  floor k _ := run_z _ _ _
  near k _ := (left_run start destination k).deviation_le (Raster.near_start.run k)

end SightLine

/-! ## The loops -/

section Loops

variable {getTile : UInt16 → UInt16 → UInt8 → Option SightTile} {l : SightLine}
  {start : Position} {n : ℕ}

/-- A walk that arrives returns, on a tile that blocks or at the end. -/
theorem sightWalk_isSome {fuel : ℕ} (h : n < fuel)
    (harrives : (l.step^[n] start).x = l.destination.x ∧ (l.step^[n] start).y = l.destination.y) :
    (sightWalk getTile l fuel start).isSome := by
  induction n generalizing start fuel with
  | zero =>
    obtain ⟨fuel, rfl⟩ := Nat.exists_eq_add_of_lt h
    have hdone : ¬(start.x ≠ l.destination.x ∨ start.y ≠ l.destination.y) := by
      rw [not_or, not_not, not_not]
      exact harrives
    rw [sightWalk, if_neg hdone]
    rfl
  | succ n ih =>
    obtain ⟨fuel, rfl⟩ := Nat.exists_eq_add_of_lt h
    simp only [sightWalk]
    split_ifs
    · rfl
    · have hlt : n < n + 1 + fuel := by omega
      exact ih hlt harrives
    · rfl

/-- The first loop stays on its floor. -/
theorem sightWalk_z {fuel : ℕ} {pos : Position}
    (h : sightWalk getTile l fuel start = some (some pos)) : pos.z = start.z := by
  induction fuel generalizing start with
  | zero => simp [sightWalk] at h
  | succ fuel ih =>
    simp only [sightWalk] at h
    split_ifs at h
    · simp at h
    · rw [ih h, SightLine.step_z]
    · simp only [Option.some.injEq] at h
      rw [h]

/-- Where nothing blocks, a walk that arrives after `n` steps takes these and no more. -/
theorem sightWalk_eq (fuel : ℕ)
    (hunder : ∀ k < n, ¬((l.step^[k] start).x = l.destination.x ∧
      (l.step^[k] start).y = l.destination.y))
    (harrives : (l.step^[n] start).x = l.destination.x ∧ (l.step^[n] start).y = l.destination.y)
    (hfree : ∀ k < n, blocksProjectile getTile (l.step^[k + 1] start) = false) :
    sightWalk getTile l fuel start =
      if fuel ≤ n then none else some (some (l.step^[n] start)) := by
  induction fuel generalizing start n with
  | zero => rw [sightWalk, if_pos (Nat.zero_le n)]
  | succ fuel ih =>
    cases n with
    | zero =>
      have hdone : ¬(start.x ≠ l.destination.x ∨ start.y ≠ l.destination.y) := by
        rw [not_or, not_not, not_not]
        exact harrives
      rw [sightWalk, if_neg hdone, if_neg (by omega)]
      rfl
    | succ n =>
      have hgo : start.x ≠ l.destination.x ∨ start.y ≠ l.destination.y := by
        rw [← not_and_or]
        exact hunder 0 (by omega)
      have hopen : blocksProjectile getTile (l.step start) = false := hfree 0 (by omega)
      have hunder' : ∀ k < n, ¬((l.step^[k] (l.step start)).x = l.destination.x ∧
          (l.step^[k] (l.step start)).y = l.destination.y) := fun k hk => hunder (k + 1) (by omega)
      have hnext := ih hunder' harrives fun k hk => hfree (k + 1) (by omega)
      rw [sightWalk, if_pos hgo]
      simp only [hopen, Bool.false_eq_true, if_false]
      rw [hnext]
      simp only [Nat.add_le_add_iff_right, Function.iterate_succ_apply]

theorem sightFall_isSome {destination : Position} {fuel : ℕ} (hz : start.z ≤ destination.z)
    (h : destination.z.toNat - start.z.toNat < fuel) :
    (sightFall getTile destination fuel start).isSome := by
  induction fuel generalizing start with
  | zero => omega
  | succ fuel ih =>
    rw [sightFall]
    split_ifs with hgo
    · rfl
    · have hdest := destination.z.toNat_lt
      have hlt : start.z.toNat < destination.z.toNat := by
        exact Nat.lt_of_le_of_ne hz (mt UInt8.toNat_inj.mp hgo)
      have hnext : (start.z + 1).toNat = start.z.toNat + 1 := by
        rw [UInt8.toNat_add]
        exact Nat.mod_eq_of_lt (by simp only [UInt8.reduceToNat]; omega)
      refine ih ?_ ?_
      · rw [UInt8.le_iff_toNat_le, hnext]
        exact hlt
      · simp only [hnext]
        omega
    · rfl

end Loops

theorem sightStart_z_le (fromPos toPos : Position) :
    (sightStart fromPos toPos).z ≤ (sightDestination fromPos toPos).z := by
  unfold sightStart sightDestination
  split_ifs with h
  · exact UInt8.le_of_lt h
  · exact UInt8.not_lt.mp h

/-- Between any two positions, the passes of the first loop make a raster line of as many steps
as the longer of the two distances. Where nothing blocks the loop takes all of them and no more,
and whatever blocks, both loops end. -/
theorem checkSightLine_raster (getTile : UInt16 → UInt16 → UInt8 → Option SightTile)
    (fromPos toPos : Position) :
    let start := sightStart fromPos toPos
    let destination := sightDestination fromPos toPos
    let line := SightLine.ofEnds start destination
    let n := max (start.getDistanceX destination) (start.getDistanceY destination)
    RasterLine start destination (fun k => line.step^[k] start) n ∧
    ((∀ k < n, blocksProjectile getTile (line.step^[k + 1] start) = false) →
      ∀ fuel, sightWalk getTile line fuel start =
        if fuel ≤ n then none else some (some (line.step^[n] start))) ∧
    ∀ fuel, n + 256 ≤ fuel → (checkSightLine getTile fuel fromPos toPos).isSome := by
  intro start destination line n
  have hline : RasterLine start destination (fun k => line.step^[k] start) n :=
    SightLine.run_rasterLine start destination
  refine ⟨hline, fun hfree fuel => ?_, fun fuel hfuel => ?_⟩
  · exact sightWalk_eq fuel hline.under_way hline.arrives hfree
  · simp only [checkSightLine]
    split_ifs
    · rfl
    · have hlt : n < fuel := by omega
      obtain ⟨result, hwalk⟩ : ∃ result, sightWalk getTile
          (.ofEnds (sightStart fromPos toPos) (sightDestination fromPos toPos)) fuel
          (sightStart fromPos toPos) = some result :=
        Option.isSome_iff_exists.mp (sightWalk_isSome hlt hline.arrives)
      rw [hwalk]
      cases result with
      | none => rfl
      | some pos =>
        have hz : pos.z = start.z := sightWalk_z hwalk
        have hdest := (sightDestination fromPos toPos).z.toNat_lt
        exact sightFall_isSome (hz ▸ sightStart_z_le fromPos toPos) (by omega)

end OTServBR
