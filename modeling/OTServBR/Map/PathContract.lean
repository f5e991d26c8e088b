import OTServBR.Map.PathFirstStep

/-! # The contract of the path search

A path that is returned keeps to the tiles, the range and the directions that
were asked for, provided that no step crosses the edge of the map and that the
start, whose eight neighbours are always tried, has a cheap way around to each
diagonal one when diagonal steps are not allowed.
-/

namespace OTServBR

variable {w : Walker} {pathCondition : PathCondition} {fpp : FindPathParams}

/-- What a caller expects of the directions. -/
structure Honours (w : Walker) (pathCondition : PathCondition) (fpp : FindPathParams)
    (dirList : List Direction) : Prop where
  walkable : ∀ pos ∈ replay w.position dirList, (w.canWalkTo pos).isSome
  near : fpp.maxSearchDist ≠ 0 → ∀ pos ∈ replay w.position dirList,
    w.position.getDistanceX pos ≤ fpp.maxSearchDist.toInt ∧
      w.position.getDistanceY pos ≤ fpp.maxSearchDist.toInt
  held : ∃ bestMatch,
    (pathCondition.call w.position (goal w.position dirList) fpp bestMatch).1
  straight : fpp.allowDiagonal = false → ∀ d ∈ dirList, d.isDiagonal = false

theorem Enters.near {pos : Position} (h : Enters w pathCondition fpp pos)
    (hdist : fpp.maxSearchDist ≠ 0) : w.position.getDistanceX pos ≤ fpp.maxSearchDist.toInt ∧
      w.position.getDistanceY pos ≤ fpp.maxSearchDist.toInt := by
  have hin := h.1
  unfold inSearchRange at hin
  have hne : (fpp.maxSearchDist != 0) = true := bne_iff_ne.mpr hdist
  rw [hne, Bool.true_and, Bool.and_eq_true, Bool.not_eq_true', Bool.or_eq_false_iff,
    decide_eq_false_iff_not, decide_eq_false_iff_not] at hin
  omega

theorem Leads.honours {dirList : List Direction} {endPos : Position}
    (h : Leads w pathCondition fpp dirList endPos)
    (hheld : ∃ bestMatch, (pathCondition.call w.position endPos fpp bestMatch).1) :
    Honours w pathCondition fpp dirList := by
  constructor
  · exact fun pos hpos => (h.enters pos hpos).2
  · exact fun hdist pos hpos => (h.enters pos hpos).near hdist
  · rw [h.goal_eq]
    exact hheld
  · exact h.straight

/-- The condition holds at the start, and nothing better is asked for. -/
def StopsAtOnce (w : Walker) (pathCondition : PathCondition) (fpp : FindPathParams) : Prop :=
  pathCondition.call w.position w.position fpp 0 = (true, 0)

theorem honours_of_stopsAtOnce (h : StopsAtOnce w pathCondition fpp) {fuel : ℕ}
    {dirList : List Direction}
    (hpath : getPathMatching w [] pathCondition fpp fuel = some dirList) :
    Honours w pathCondition fpp dirList := by
  have hstep : searchStep w pathCondition fpp
      { nodes := AStarNodes.start w.position.x w.position.y } =
        .stop { nodes := AStarNodes.start w.position.x w.position.y
                found := some (0, w.position) } := by
    have hbest : (AStarNodes.start w.position.x w.position.y).getBestNode = some 0 := rfl
    have hnode : (AStarNodes.start w.position.x w.position.y).nodes[0]? =
        some { x := w.position.x, y := w.position.y } := rfl
    have hcall : pathCondition.call w.position
        { x := w.position.x, y := w.position.y, z := w.position.z } fpp 0 = (true, 0) := h
    have hclosed : fpp.maxSearchDist ≠ 0 ∨
        (AStarNodes.start w.position.x w.position.y).closedNodes < 100 :=
      Or.inr (show (0 : ℤ) < 100 by decide)
    unfold searchStep
    dsimp only
    rw [if_pos hclosed, hbest]
    dsimp only
    rw [hnode]
    dsimp only
    simp only [searchNode, hcall]
    rfl
  cases fuel with
  | zero => cases hpath
  | succ fuel =>
    unfold getPathMatching search at hpath
    rw [hstep] at hpath
    rw [← Option.some.inj hpath]
    constructor
    · rintro _ ⟨⟩
    · rintro _ _ ⟨⟩
    · refine ⟨0, ?_⟩
      have hcall : pathCondition.call w.position w.position fpp 0 = (true, 0) := h
      change (pathCondition.call w.position w.position fpp 0).1
      rw [hcall]
    · rintro _ _ ⟨⟩

/-- A condition for one position. -/
def targetCondition (targetPos : Position) : PathCondition where
  call := fun _ testPos _ bestMatch => (decide (testPos = targetPos), bestMatch)
  isInRange := fun _ _ _ => true

/-- A creature on a tile with some other tiles. -/
def walkerBeside (others : List Position) : Walker where
  position := { x := 100, y := 100, z := 7 }
  creatureTile := some 0
  getWalkCache := fun _ => 2
  getTile := fun pos =>
    if pos = { x := 100, y := 100, z := 7 } then some 0
    else if pos ∈ others then some 1
    else none
  queryAdd := fun _ => true
  getTopVisibleCreature := fun _ => false
  fieldHurts := fun _ => false

theorem place_walkerBeside {others : List Position} {pos : Position}
    (h : Place (walkerBeside others) pathCondition fpp pos) :
    pos ∈ { x := 100, y := 100, z := 7 } :: others := by
  obtain h | ⟨-, h⟩ := h
  · exact List.mem_cons.mpr (Or.inl h)
  · obtain ⟨t, ht⟩ := Option.isSome_iff_exists.mp h
    have htile := Walker.getTile_of_canWalkTo ht
    unfold walkerBeside at htile
    dsimp only at htile
    split_ifs at htile with hstart hother
    · exact List.mem_cons.mpr (Or.inl hstart)
    · exact List.mem_cons_of_mem _ hother

/-- The tiles to the east and to the south-east. -/
def eastAndSoutheast : List Position := [{ x := 101, y := 100, z := 7 },
  { x := 101, y := 101, z := 7 }]

end OTServBR
