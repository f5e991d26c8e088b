import OTServBR.Lib.SkipCode
import OTServBR.Tile.Description
import OTServBR.View.Sight

/-! # Descriptions of the map

A map description goes through the tiles of a rectangle on every floor that is
in sight, which is shifted by a tile for each floor, and counts the missing ones.
A step on one floor adds a row and a column of it.
-/

namespace OTServBR.ProtocolGame

open SkipCode

/-- What a reader takes from the description of a tile in one go. -/
inductive Piece
  | environment
  | thing (t : Thing)
  deriving DecidableEq

/-- The player and the version of a connection, with the tiles of the map. -/
structure Client where
  version : ℕ
  player : Viewer
  getTile : UInt16 → UInt16 → UInt8 → Option Tile

/-- The arguments of `GetMapDescription`. -/
structure Area where
  x : ℤ
  y : ℤ
  z : ℤ
  width : ℕ
  height : ℕ

/-- The message so far, and the variable `skip`. -/
structure Writer where
  words : List (Word Piece) := []
  skip : ℤ := -1

namespace Client

variable (c : Client)

def GetTileDescription (tile : Tile) (position : Position) : List Piece :=
  (if c.version < 1200 then [.environment] else []) ++
    (tile.GetTileDescription c.player position).map .thing

/-- The description of the tile at coordinates, which `Map::getTile` cuts to 16 and 8 bits. -/
def describe (p : ℤ × ℤ × ℤ) : Option (List Piece) :=
  let x := UInt16.ofInt p.1
  let y := UInt16.ofInt p.2.1
  let z := UInt8.ofInt p.2.2
  (c.getTile x y z).map fun tile => c.GetTileDescription tile { x := x, y := y, z := z }

def GetFloorDescription (x y z : ℤ) (width height : ℕ) (offset : ℤ) (msg : Writer) : Writer :=
  (List.range width).foldl (fun msg (nx : ℕ) =>
    (List.range height).foldl (fun msg (ny : ℕ) =>
      match c.describe (x + nx + offset, y + ny + offset, z) with
      | some description =>
        let words :=
          if 0 ≤ msg.skip then msg.words ++ [.skip (UInt8.ofNat msg.skip.toNat)] else msg.words
        { words := words ++ description.map .datum, skip := 0 }
      | none =>
        if msg.skip = 0xFE then { words := msg.words ++ [.skip 0xFF], skip := -1 }
        else { msg with skip := msg.skip + 1 }) msg) msg

/-- The floors that a description from one of the floors of the map goes through. -/
def floors (z : ℤ) : List ℤ :=
  if z > 7 then
    let startz := z - 2
    let endz := min 15 (z + 2)
    (List.range (endz + 1 - startz).toNat).map fun i : ℕ => startz + i
  else (List.range 8).map fun i : ℕ => 7 - (i : ℤ)

def GetMapDescription (a : Area) : List (Word Piece) :=
  let msg := (floors a.z).foldl (fun msg nz =>
    c.GetFloorDescription a.x a.y nz a.width a.height (a.z - nz) msg) {}
  if 0 ≤ msg.skip then msg.words ++ [.skip (UInt8.ofNat msg.skip.toNat)] else msg.words

end Client

/-! ## Steps -/

/-- The parts of the message about a move of the player itself. What a change of the floor
writes is left out. -/
inductive Part
  | removeTileThing (pos : Position) (stackpos : ℕ)
  | moveThing (oldPos : Position) (oldStackPos : ℕ) (newPos : Position)
  | moveDown
  | moveUp
  | description (opcode : UInt8) (a : Area)

def sendMapDescription (pos : Position) : List Part :=
  [.description 0x64 ⟨pos.x.toNat - 8, pos.y.toNat - 6, pos.z.toNat, 18, 14⟩]

/-- `RemoveTileThing` writes nothing for a thing that the client does not know. -/
def RemoveTileThing (pos : Position) (stackpos : ℕ) : List Part :=
  if stackpos ≥ 10 then [] else [.removeTileThing pos stackpos]

/-- The row that a step to the north or to the south adds, for the old x. -/
def rowStrip (newPos oldPos : Position) : List Part :=
  let x : ℤ := oldPos.x.toNat
  let y : ℤ := newPos.y.toNat
  if oldPos.y > newPos.y then [.description 0x65 ⟨x - 8, y - 6, newPos.z.toNat, 18, 1⟩]
  else if oldPos.y < newPos.y then [.description 0x67 ⟨x - 8, y + 7, newPos.z.toNat, 18, 1⟩]
  else []

/-- The column that a step to the east or to the west adds, with the new y. -/
def columnStrip (newPos oldPos : Position) : List Part :=
  let x : ℤ := newPos.x.toNat
  let y : ℤ := newPos.y.toNat
  if oldPos.x < newPos.x then [.description 0x66 ⟨x + 9, y - 6, newPos.z.toNat, 1, 14⟩]
  else if oldPos.x > newPos.x then [.description 0x68 ⟨x - 8, y - 6, newPos.z.toNat, 1, 14⟩]
  else []

/-- `sendMoveCreature` for the player itself. -/
def sendMoveCreature (newPos oldPos : Position) (oldStackPos : ℕ) (teleport : Bool) : List Part :=
  if oldStackPos ≥ 10 then sendMapDescription newPos
  else if teleport then RemoveTileThing oldPos oldStackPos ++ sendMapDescription newPos
  else
    (if oldPos.z = 7 ∧ newPos.z ≥ 8 then RemoveTileThing oldPos oldStackPos
      else [.moveThing oldPos oldStackPos newPos]) ++
    (if newPos.z > oldPos.z then [.moveDown] else if newPos.z < oldPos.z then [.moveUp] else []) ++
    (rowStrip newPos oldPos ++ columnStrip newPos oldPos)

/-! ## What is described -/

/-- The coordinates that a description goes through, in its order. -/
def Area.coordinates (a : Area) : List (ℤ × ℤ × ℤ) :=
  (Client.floors a.z).flatMap fun nz =>
    (List.range a.width).flatMap fun nx : ℕ =>
      (List.range a.height).map fun ny : ℕ => (a.x + nx + (a.z - nz), a.y + ny + (a.z - nz), nz)

def Part.coordinates : Part → List (ℤ × ℤ × ℤ)
  | .description _ a => a.coordinates
  | _ => []

/-- The tiles of an area. -/
def Client.grid (c : Client) (a : Area) : List (Option (List Piece)) :=
  a.coordinates.map c.describe

/-- The step of the writer at one tile. -/
def Writer.put (msg : Writer) : Option (List Piece) → Writer
  | some description =>
    { words := msg.words ++ flush msg.skip ++ description.map .datum, skip := 0 }
  | none =>
    if msg.skip = 0xFE then { words := msg.words ++ [.skip 0xFF], skip := -1 }
    else { msg with skip := msg.skip + 1 }

variable {c : Client} {a : Area} {msg : Writer}

theorem append_flush {words : List (Word Piece)} {skip : ℤ} :
    (if 0 ≤ skip then words ++ [.skip (UInt8.ofNat skip.toNat)] else words) =
      words ++ flush skip := by
  unfold flush
  split
  · rfl
  · rw [List.append_nil]

theorem GetFloorDescription_eq (x y z : ℤ) (width height : ℕ) (offset : ℤ) :
    c.GetFloorDescription x y z width height offset msg =
      (((List.range width).flatMap fun nx : ℕ =>
        (List.range height).map fun ny : ℕ => (x + nx + offset, y + ny + offset, z)).map
          c.describe).foldl Writer.put msg := by
  unfold Client.GetFloorDescription
  rw [List.foldl_map, List.foldl_flatMap]
  congr 1
  funext msg nx
  rw [List.foldl_map]
  congr 1
  funext msg ny
  rw [append_flush]
  unfold Writer.put
  cases c.describe (x + nx + offset, y + ny + offset, z) <;> rfl

theorem foldl_put (cells : List (Option (List Piece))) :
    (cells.foldl Writer.put msg).words ++ flush (cells.foldl Writer.put msg).skip =
      msg.words ++ encode msg.skip cells := by
  induction cells generalizing msg with
  | nil => rfl
  | cons cell cells ih =>
    rw [List.foldl_cons, ih]
    cases cell with
    | some description => simp [Writer.put, encode]
    | none =>
      rw [Writer.put, encode]
      split
      · simp
      · rfl

/-- A description is the code of the grid. -/
theorem GetMapDescription_eq : c.GetMapDescription a = encode (-1) (c.grid a) := by
  have hfloors : ∀ (l : List ℤ) (msg : Writer), l.foldl (fun msg nz =>
      c.GetFloorDescription a.x a.y nz a.width a.height (a.z - nz) msg) msg =
        ((l.flatMap fun nz => (List.range a.width).flatMap fun nx : ℕ =>
          (List.range a.height).map fun ny : ℕ =>
            (a.x + nx + (a.z - nz), a.y + ny + (a.z - nz), nz)).map c.describe).foldl
              Writer.put msg := by
    intro l msg
    rw [List.foldl_map, List.foldl_flatMap]
    congr 1
    funext msg nz
    rw [GetFloorDescription_eq, List.foldl_map]
  unfold Client.GetMapDescription
  rw [append_flush, hfloors, foldl_put]
  rfl

theorem decode_GetMapDescription :
    decode a.coordinates.length 0 (c.GetMapDescription a) =
      some ((c.grid a).map legible, []) := by
  have hlength : a.coordinates.length = (c.grid a).length := (List.length_map _).symm
  rw [GetMapDescription_eq, hlength, decode_encode]

/-- Before version 12.00 every tile has something to read. -/
theorem grid_legible (h : c.version < 1200) : (c.grid a).map legible = c.grid a := by
  unfold Client.grid
  rw [List.map_map]
  refine List.map_congr_left fun p _ => ?_
  unfold Client.describe
  dsimp only [Function.comp_apply]
  cases c.getTile (UInt16.ofInt p.1) (UInt16.ofInt p.2.1) (UInt8.ofInt p.2.2) with
  | none => rfl
  | some tile =>
    rw [Option.map_some, Client.GetTileDescription, if_pos h]
    rfl

theorem mem_floors {z nz : ℤ} : nz ∈ Client.floors z ↔
    if z > 7 then z - 2 ≤ nz ∧ nz ≤ 15 ∧ nz ≤ z + 2 else 0 ≤ nz ∧ nz ≤ 7 := by
  unfold Client.floors
  split
  · rw [List.mem_map]
    constructor
    · rintro ⟨i, hi, rfl⟩
      rw [List.mem_range] at hi
      omega
    · intro h
      refine ⟨(nz - (z - 2)).toNat, ?_, by omega⟩
      rw [List.mem_range]
      omega
  · rw [List.mem_map]
    constructor
    · rintro ⟨i, hi, rfl⟩
      rw [List.mem_range] at hi
      omega
    · intro h
      refine ⟨(7 - nz).toNat, ?_, by omega⟩
      rw [List.mem_range]
      omega

theorem mem_coordinates {x y z : ℤ} : (x, y, z) ∈ a.coordinates ↔
    z ∈ Client.floors a.z ∧
      (a.x + (a.z - z) ≤ x ∧ x < a.x + (a.z - z) + a.width) ∧
        a.y + (a.z - z) ≤ y ∧ y < a.y + (a.z - z) + a.height := by
  unfold Area.coordinates
  rw [List.mem_flatMap]
  constructor
  · rintro ⟨nz, hnz, hmem⟩
    obtain ⟨nx, hnx, hmem⟩ := List.mem_flatMap.mp hmem
    obtain ⟨ny, hny, heq⟩ := List.mem_map.mp hmem
    rw [List.mem_range] at hnx hny
    cases heq
    exact ⟨hnz, ⟨by omega, by omega⟩, by omega, by omega⟩
  · rintro ⟨hz, ⟨hx, hx'⟩, hy, hy'⟩
    refine ⟨z, hz, List.mem_flatMap.mpr ⟨(x - (a.x + (a.z - z))).toNat, ?_,
      List.mem_map.mpr ⟨(y - (a.y + (a.z - z))).toNat, ?_, ?_⟩⟩⟩
    · rw [List.mem_range]
      omega
    · rw [List.mem_range]
      omega
    · have hxeq : a.x + ((x - (a.x + (a.z - z))).toNat : ℤ) + (a.z - z) = x := by omega
      have hyeq : a.y + ((y - (a.y + (a.z - z))).toNat : ℤ) + (a.z - z) = y := by omega
      rw [hxeq, hyeq]

/-- Positions are next to each other on one floor, or the same. -/
structure Step (oldPos newPos : Position) : Prop where
  floor : newPos.z = oldPos.z
  column : ((newPos.x.toNat : ℤ) - oldPos.x.toNat).natAbs ≤ 1
  row : ((newPos.y.toNat : ℤ) - oldPos.y.toNat).natAbs ≤ 1

theorem canSee_iff {myPos : Position} {x y z : ℤ} : canSee myPos x y z ↔
    (if (myPos.z.toNat : ℤ) ≤ 7 then z ≤ 7 else ((myPos.z.toNat : ℤ) - z).natAbs ≤ 2) ∧
      (myPos.x.toNat - 8 + ((myPos.z.toNat : ℤ) - z) ≤ x ∧
        x ≤ myPos.x.toNat + 9 + ((myPos.z.toNat : ℤ) - z)) ∧
      myPos.y.toNat - 6 + ((myPos.z.toNat : ℤ) - z) ≤ y ∧
        y ≤ myPos.y.toNat + 7 + ((myPos.z.toNat : ℤ) - z) := by
  unfold canSee
  dsimp only
  split
  · next h => simp [h.1, h.2]
  · split
    · next h => simp [h.2, show ¬ (myPos.z.toNat : ℤ) ≤ 7 by omega]
    · rw [decide_eq_true_iff]
      split <;> omega

/-- The floors in sight of a position are those that a description goes through. -/
theorem mem_floors_of_canSee {myPos : Position} {x y z : ℤ} (h : canSee myPos x y z) (h0 : 0 ≤ z)
    (h15 : z ≤ 15) : z ∈ Client.floors myPos.z.toNat := by
  rw [mem_floors]
  have hfloor := (canSee_iff.mp h).1
  split at hfloor
  · rw [if_neg (by omega)]
    exact ⟨h0, hfloor⟩
  · rw [if_pos (by omega)]
    omega

theorem covers_sendMapDescription {newPos : Position} {x y z : ℤ} (h0 : 0 ≤ z) (h15 : z ≤ 15)
    (h : canSee newPos x y z) :
    ∃ part ∈ sendMapDescription newPos, (x, y, z) ∈ part.coordinates := by
  refine ⟨_, List.mem_singleton_self _, mem_coordinates.mpr ⟨mem_floors_of_canSee h h0 h15, ?_⟩⟩
  obtain ⟨_, hx, hy⟩ := canSee_iff.mp h
  dsimp only
  omega

theorem mem_sendMoveCreature {oldPos newPos : Position} {oldStackPos : ℕ}
    (hstack : oldStackPos < 10) {part : Part} (hpart : part ∈ rowStrip newPos oldPos ++ columnStrip newPos oldPos) :
    part ∈ sendMoveCreature newPos oldPos oldStackPos false := by
  rw [sendMoveCreature, if_neg (by omega), if_neg Bool.false_ne_true]
  exact List.mem_append_right _ hpart

section Strips

variable {oldPos newPos : Position}

theorem rowStrip_north (h : newPos.y.toNat < oldPos.y.toNat) : rowStrip newPos oldPos =
    [.description 0x65 ⟨oldPos.x.toNat - 8, newPos.y.toNat - 6, newPos.z.toNat, 18, 1⟩] :=
  if_pos (UInt16.lt_iff_toNat_lt.mpr h)

theorem rowStrip_south (h : oldPos.y.toNat < newPos.y.toNat) : rowStrip newPos oldPos =
    [.description 0x67 ⟨oldPos.x.toNat - 8, newPos.y.toNat + 7, newPos.z.toNat, 18, 1⟩] := by
  have hnot : ¬ oldPos.y > newPos.y := fun hlt => by
    have := UInt16.lt_iff_toNat_lt.mp hlt
    omega
  exact (if_neg hnot).trans (if_pos (UInt16.lt_iff_toNat_lt.mpr h))

theorem columnStrip_east (h : oldPos.x.toNat < newPos.x.toNat) : columnStrip newPos oldPos =
    [.description 0x66 ⟨newPos.x.toNat + 9, newPos.y.toNat - 6, newPos.z.toNat, 1, 14⟩] :=
  if_pos (UInt16.lt_iff_toNat_lt.mpr h)

theorem columnStrip_west (h : newPos.x.toNat < oldPos.x.toNat) : columnStrip newPos oldPos =
    [.description 0x68 ⟨newPos.x.toNat - 8, newPos.y.toNat - 6, newPos.z.toNat, 1, 14⟩] := by
  have hnot : ¬ oldPos.x < newPos.x := fun hlt => by
    have := UInt16.lt_iff_toNat_lt.mp hlt
    omega
  exact (if_neg hnot).trans (if_pos (UInt16.lt_iff_toNat_lt.mpr h))

/-- A position that comes into sight lies in the new column, or in the new row where it is no
further than the old rectangle. -/
theorem covers_strips (hstep : Step oldPos newPos) {x y z : ℤ} (h0 : 0 ≤ z) (h15 : z ≤ 15)
    (hnew : canSee newPos x y z) (hold : ¬ canSee oldPos x y z) :
    ∃ part ∈ rowStrip newPos oldPos ++ columnStrip newPos oldPos,
      (x, y, z) ∈ part.coordinates := by
  have hfloors := mem_floors_of_canSee hnew h0 h15
  have hz : newPos.z.toNat = oldPos.z.toNat := congrArg UInt8.toNat hstep.floor
  have hcolumn := hstep.column
  have hrow := hstep.row
  obtain ⟨hfloor, hx, hy⟩ := canSee_iff.mp hnew
  have hout : ¬ ((oldPos.x.toNat - 8 + ((newPos.z.toNat : ℤ) - z) ≤ x ∧
      x ≤ oldPos.x.toNat + 9 + ((newPos.z.toNat : ℤ) - z)) ∧
        oldPos.y.toNat - 6 + ((newPos.z.toNat : ℤ) - z) ≤ y ∧
          y ≤ oldPos.y.toNat + 7 + ((newPos.z.toNat : ℤ) - z)) := by
    intro hin
    refine hold (canSee_iff.mpr ?_)
    rw [← hz]
    exact ⟨hfloor, hin⟩
  clear hold hnew hfloor hstep h0 h15
  by_cases hwest : x < oldPos.x.toNat - 8 + ((newPos.z.toNat : ℤ) - z)
  · rw [columnStrip_west (by omega)]
    refine ⟨_, List.mem_append_right _ (List.mem_singleton_self _), ?_⟩
    refine mem_coordinates.mpr ⟨hfloors, ?_⟩
    dsimp only
    omega
  by_cases heast : oldPos.x.toNat + 9 + ((newPos.z.toNat : ℤ) - z) < x
  · rw [columnStrip_east (by omega)]
    refine ⟨_, List.mem_append_right _ (List.mem_singleton_self _), ?_⟩
    refine mem_coordinates.mpr ⟨hfloors, ?_⟩
    dsimp only
    omega
  by_cases hnorth : y < oldPos.y.toNat - 6 + ((newPos.z.toNat : ℤ) - z)
  · rw [rowStrip_north (by omega)]
    refine ⟨_, List.mem_append_left _ (List.mem_singleton_self _), ?_⟩
    refine mem_coordinates.mpr ⟨hfloors, ?_⟩
    dsimp only
    omega
  · rw [rowStrip_south (by omega)]
    refine ⟨_, List.mem_append_left _ (List.mem_singleton_self _), ?_⟩
    refine mem_coordinates.mpr ⟨hfloors, ?_⟩
    dsimp only
    omega

/-- What comes into sight by a step on one floor is described. -/
theorem covers_step (hstep : Step oldPos newPos) (oldStackPos : ℕ) (teleport : Bool) {x y z : ℤ}
    (h0 : 0 ≤ z) (h15 : z ≤ 15) (hnew : canSee newPos x y z) (hold : ¬ canSee oldPos x y z) :
    ∃ part ∈ sendMoveCreature newPos oldPos oldStackPos teleport,
      (x, y, z) ∈ part.coordinates := by
  by_cases hstack : oldStackPos ≥ 10
  · rw [sendMoveCreature, if_pos hstack]
    exact covers_sendMapDescription h0 h15 hnew
  cases teleport with
  | true =>
    obtain ⟨part, hpart, hmem⟩ := covers_sendMapDescription h0 h15 hnew
    refine ⟨part, ?_, hmem⟩
    rw [sendMoveCreature, if_neg hstack, if_pos rfl]
    exact List.mem_append_right _ hpart
  | false =>
    obtain ⟨part, hpart, hmem⟩ := covers_strips hstep h0 h15 hnew hold
    exact ⟨part, mem_sendMoveCreature (Nat.not_le.mp hstack) hpart, hmem⟩

end Strips

/-- A description reads back as the grid, where tiles with nothing to describe read like missing
ones, and the strips of a step describe what comes into sight. -/
theorem descriptions_faithful :
    (∀ (c : Client) (a : Area), decode a.coordinates.length 0 (c.GetMapDescription a) =
      some ((c.grid a).map legible, [])) ∧
    ∀ (oldPos newPos : Position), Step oldPos newPos →
      ∀ (oldStackPos : ℕ) (teleport : Bool) (pos : Position), pos.z ≤ 15 →
        canSeePosition newPos pos → ¬ canSeePosition oldPos pos →
          ∃ part ∈ sendMoveCreature newPos oldPos oldStackPos teleport,
            ((pos.x.toNat : ℤ), (pos.y.toNat : ℤ), (pos.z.toNat : ℤ)) ∈ part.coordinates := by
  refine ⟨fun c a => decode_GetMapDescription, ?_⟩
  intro oldPos newPos hstep oldStackPos teleport pos hz hnew hold
  have h15 : (pos.z.toNat : ℤ) ≤ 15 := by
    have := UInt8.le_iff_toNat_le.mp hz
    exact_mod_cast this
  exact covers_step hstep oldStackPos teleport (by omega) h15 hnew hold

/-- The map of a client that has at most one tile of a column, without anything on it. -/
def emptyTile (tile : Option Tile) : Client where
  version := 1200
  player := { id := 0, position := { x := 100, y := 100, z := 7 }, canSeeCreature := fun _ => true }
  getTile _ _ z := if z = 7 then tile else none

/-- No reader tells an empty tile from a missing one. -/
theorem not_readable_emptyTile :
    ¬ ∃ read : Area → List (Word Piece) → List (Option (List Piece)),
      ∀ (c : Client) (a : Area), read a (c.GetMapDescription a) = c.grid a := by
  rintro ⟨read, h⟩
  have hsame : (emptyTile (some {})).GetMapDescription ⟨100, 100, 7, 1, 1⟩ =
      (emptyTile none).GetMapDescription ⟨100, 100, 7, 1, 1⟩ := by decide
  have hgrid := h (emptyTile (some {})) ⟨100, 100, 7, 1, 1⟩
  rw [hsame, h (emptyTile none)] at hgrid
  exact absurd hgrid (by decide)

/-- A step to the north-east. -/
theorem descriptions_faithful_northEast :
    ∃ part ∈ sendMoveCreature ⟨101, 99, 7⟩ ⟨100, 100, 7⟩ 1 false,
      ((110 : ℤ), (93 : ℤ), (7 : ℤ)) ∈ part.coordinates :=
  descriptions_faithful.2 ⟨100, 100, 7⟩ ⟨101, 99, 7⟩ ⟨rfl, by decide, by decide⟩ 1 false
    ⟨110, 93, 7⟩ (by decide) (by decide) (by decide)

end OTServBR.ProtocolGame
