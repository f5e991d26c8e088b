import Mathlib.Data.List.Nodup
import OTServBR.Map.PathSearch

/-! # The first step

The start is expanded in all eight directions. A diagonal neighbour does not stay
its child when a neighbour between the two costs nothing extra: that one is
expanded earlier, and offers a cheaper way.
-/

namespace OTServBR

/-! ## The best node -/

namespace AStarNodes
variable (a : AStarNodes)

/-- What a node has to undercut. -/
def bestF : Option ℕ → ℕ
  | none => 2147483647
  | some j => (a.nodes[j]?.map AStarNode.f).getD 0

/-- The choice between the best node so far and the next one. -/
def better (best : Option ℕ) (i : ℕ) : Option ℕ :=
  match a.nodes[i]? with
  | none => best
  | some node => if a.openNodes i && node.f < a.bestF best then some i else best

theorem getBestNode_eq : a.getBestNode = (List.range a.nodes.length).foldl a.better none := rfl

variable {a}

theorem foldl_better {k : ℕ} (hk : k ≤ a.nodes.length) :
    (∀ n, (List.range k).foldl a.better none = some n → n < k ∧ a.openNodes n) ∧
      ∀ i node, i < k → a.openNodes i → a.nodes[i]? = some node →
        a.bestF ((List.range k).foldl a.better none) ≤ node.f := by
  induction k with
  | zero => exact ⟨nofun, fun i node hi => absurd hi (Nat.not_lt_zero i)⟩
  | succ k ih =>
    obtain ⟨hbest, hleast⟩ := ih (by omega)
    have hk' := List.getElem?_eq_getElem (show k < a.nodes.length by omega)
    rw [List.range_succ, List.foldl_append, List.foldl_cons, List.foldl_nil]
    generalize (List.range k).foldl a.better none = best at hbest hleast ⊢
    unfold better
    rw [hk']
    dsimp only
    split
    · next h =>
      rw [Bool.and_eq_true, decide_eq_true_eq] at h
      have hf : a.bestF (some k) = (a.nodes[k]).f := by
        rw [bestF, hk']
        rfl
      refine ⟨fun n hn => ?_, fun i node hi hopen hnode => ?_⟩
      · rw [← Option.some.inj hn]
        exact ⟨k.lt_succ_self, h.1⟩
      · rw [hf]
        rcases Nat.lt_succ_iff_lt_or_eq.mp hi with hi | rfl
        · exact h.2.le.trans (hleast i node hi hopen hnode)
        · rw [← Option.some.inj (hk'.symm.trans hnode)]
    · next h =>
      rw [Bool.and_eq_true, decide_eq_true_eq, not_and, not_lt] at h
      refine ⟨fun n hn => ?_, fun i node hi hopen hnode => ?_⟩
      · exact ⟨(hbest n hn).1.trans k.lt_succ_self, (hbest n hn).2⟩
      · rcases Nat.lt_succ_iff_lt_or_eq.mp hi with hi | rfl
        · exact hleast i node hi hopen hnode
        · rw [← Option.some.inj (hk'.symm.trans hnode)]
          exact h hopen

/-- The best node is open, and no open node is cheaper. -/
theorem getBestNode_spec {n : ℕ} {node : AStarNode} (h : a.getBestNode = some n)
    (hn : a.nodes[n]? = some node) :
    a.openNodes n ∧
      ∀ i other, a.openNodes i → a.nodes[i]? = some other → node.f ≤ other.f := by
  rw [getBestNode_eq] at h
  obtain ⟨hbest, hleast⟩ := foldl_better (a := a) le_rfl
  refine ⟨(hbest n h).2, fun i other hopen hother => ?_⟩
  obtain ⟨hi, -⟩ := List.getElem?_eq_some_iff.mp hother
  have hle := hleast i other hi hopen hother
  rw [h, bestF, hn] at hle
  exact hle

@[simp] theorem openNodes_closeNode {j i : ℕ} :
    (a.closeNode j).openNodes i = (a.openNodes i && i != j) := by
  unfold closeNode
  dsimp only
  rw [Function.update_apply]
  split
  · next hij => rw [hij, bne_self_eq_false, Bool.and_false]
  · next hij => rw [bne_iff_ne.mpr hij, Bool.and_true]

end AStarNodes

/-! ## What a visit changes -/

section FirstStep
variable {w : Walker} {pathCondition : PathCondition} {fpp : FindPathParams} {n i : ℕ}
  {node child : AStarNode} {d : ℤ × ℤ} {a a' : AStarNodes}

theorem Visited.openNodes (h : Visited w pathCondition fpp n node ((w.place node).shift d) a a')
    (hi : a.openNodes i = true) : a'.openNodes i = true := by
  cases h with
  | out _ => exact hi
  | cheap _ _ _ _ _ => exact hi
  | relink j old hpos hold hlt => rw [AStarNodes.openNodes_relink, hi, Bool.true_or]
  | create hpos hnew hroom => rw [AStarNodes.openNodes_create, hi, Bool.true_or]

/-- The start is never opened again. -/
theorem Visited.openNodes_zero (ha : SearchTree w pathCondition fpp a)
    (h : Visited w pathCondition fpp n node ((w.place node).shift d) a a') :
    a'.openNodes 0 = a.openNodes 0 := by
  cases h with
  | out _ => rfl
  | cheap _ _ _ _ _ => rfl
  | relink j old hpos hold hlt =>
    have hj := ha.ne_zero hold (Nat.zero_lt_of_lt hlt)
    rw [AStarNodes.openNodes_relink, beq_false_of_ne hj.symm, Bool.or_false]
  | create hpos hnew hroom =>
    obtain ⟨hpos', -⟩ := List.getElem?_eq_some_iff.mp ha.start
    rw [AStarNodes.openNodes_create, beq_false_of_ne hpos'.ne, Bool.or_false]

/-! ## Costs -/

/-- The node of the start. -/
def Walker.startNode (w : Walker) : AStarNode := { x := w.position.x, y := w.position.y }

theorem le_newf (w : Walker) (node : AStarNode) (pos : Position) :
    node.f + MAP_NORMALWALKCOST ≤ newf w node pos := by
  have hcost : MAP_NORMALWALKCOST ≤ AStarNodes.getMapWalkCost node pos := by
    unfold AStarNodes.getMapWalkCost
    split <;> decide
  unfold newf
  omega

/-- Every position has one node, no node but the start is free, and the children of the start
cost what their first step costs. -/
structure Charted (w : Walker) (a : AStarNodes) : Prop where
  unique : ∀ {i : ℕ} {node}, a.nodes[i]? = some node → a.getNodeByPosition node.x node.y = some i
  f_ge : ∀ {i : ℕ} {node}, a.nodes[i]? = some node → i ≠ 0 → MAP_NORMALWALKCOST ≤ node.f
  f_eq : ∀ {i : ℕ} {node}, a.nodes[i]? = some node → node.parent = some 0 →
    node.f = newf w w.startNode (w.place node)

theorem charted_start : Charted w (AStarNodes.start w.position.x w.position.y) := by
  have hzero : ∀ {i : ℕ} {node},
      (AStarNodes.start w.position.x w.position.y).nodes[i]? = some node →
      i = 0 ∧ node = w.startNode := by
    intro i node hi
    obtain ⟨hlt, -⟩ := List.getElem?_eq_some_iff.mp hi
    obtain rfl := Nat.lt_one_iff.mp hlt
    exact ⟨rfl, (Option.some.inj hi).symm⟩
  constructor
  · intro i node hi
    obtain ⟨rfl, rfl⟩ := hzero hi
    unfold AStarNodes.getNodeByPosition AStarNodes.start Walker.startNode
    dsimp only
    rw [Function.update_self]
  · intro i node hi hne
    exact absurd (hzero hi).1 hne
  · intro i node hi hparent
    obtain ⟨rfl, rfl⟩ := hzero hi
    cases hparent

theorem Charted.of_visited (hc : Charted w a) (ha : SearchTree w pathCondition fpp a)
    (hn : a.nodes[n]? = some node)
    (h : Visited w pathCondition fpp n node ((w.place node).shift d) a a') : Charted w a' := by
  constructor
  · cases h with
    | out _ => exact hc.unique
    | cheap _ _ _ _ _ => exact hc.unique
    | relink j old hpos hold hlt =>
      intro i child hi
      unfold AStarNodes.getNodeByPosition
      rw [AStarNodes.nodeTable_relink]
      rw [AStarNodes.getElem?_relink hold] at hi
      split at hi
      · next hij =>
        rw [← Option.some.inj hi, hij]
        exact (hc.unique hold :)
      · exact hc.unique hi
    | create hpos hnew hroom =>
      intro i child hi
      rw [AStarNodes.getElem?_create] at hi
      rw [AStarNodes.getNodeByPosition_create]
      split at hi
      · next hij =>
        rw [← Option.some.inj hi, if_pos ⟨rfl, rfl⟩, hij]
      · rw [if_neg, hc.unique hi]
        rintro ⟨hx, hy⟩
        have hsome := hc.unique hi
        rw [hx, hy] at hsome
        cases hsome.symm.trans hnew
  · intro i child hi hne
    obtain ⟨hold, -⟩ | ⟨hfresh, -⟩ := h.old_or_fresh ha hi
    · exact hc.f_ge hold hne
    · have hle := le_newf w node (w.place child)
      rw [hfresh.f_eq]
      omega
  · intro i child hi hparent
    obtain ⟨hold, -⟩ | ⟨hfresh, -⟩ := h.old_or_fresh ha hi
    · exact hc.f_eq hold hparent
    · obtain rfl := Option.some.inj (hfresh.parent.symm.trans hparent)
      rw [Option.some.inj (hn.symm.trans ha.start)] at hfresh
      exact hfresh.f_eq

/-! ## Room for all nodes -/

/-- The offsets of at most two steps. -/
def twoSteps : List (ℤ × ℤ) := [-2, -1, 0, 1, 2].product [-2, -1, 0, 1, 2]

/-- A position that is at most two steps away from the start. -/
def Near (w : Walker) (pos : Position) : Prop := ∃ d ∈ twoSteps, pos = w.position.shift d

theorem shift_shift (pos : Position) (d e : ℤ × ℤ) :
    (pos.shift d).shift e = pos.shift (d.1 + e.1, d.2 + e.2) := by
  have hadd : ∀ (u : UInt16) (i j : ℤ),
      UInt16.ofInt ((UInt16.ofInt (u.toNat + i)).toNat + j) = UInt16.ofInt (u.toNat + (i + j)) := by
    intro u i j
    rw [ofInt_add, ofInt_add, ofInt_add, UInt16.ofInt_add, UInt16.add_assoc]
  unfold Position.shift
  dsimp only
  rw [hadd, hadd]

theorem near_shift {d : ℤ × ℤ} (hd : d ∈ allNeighbors) : Near w (w.position.shift d) := by
  have hall : ∀ d ∈ allNeighbors, d ∈ twoSteps := by decide
  exact ⟨d, hall d hd, rfl⟩

theorem near_shift_shift {d e : ℤ × ℤ} (hd : d ∈ allNeighbors) (he : e ∈ allNeighbors) :
    Near w ((w.position.shift d).shift e) := by
  have hall : ∀ d ∈ allNeighbors, ∀ e ∈ allNeighbors, (d.1 + e.1, d.2 + e.2) ∈ twoSteps := by
    decide
  exact ⟨_, hall d hd e he, shift_shift _ _ _⟩

theorem Charted.length_lt (hc : Charted w a)
    (hnear : ∀ {i : ℕ} {node}, a.nodes[i]? = some node → Near w (w.place node)) :
    a.nodes.length < MAX_NODES := by
  have hnodup : (a.nodes.map w.place).Nodup := by
    rw [List.nodup_iff_getElem?_ne_getElem?]
    intro i j hij hj heq
    rw [List.length_map] at hj
    have hi := List.getElem?_eq_getElem (hij.trans hj)
    have hj := List.getElem?_eq_getElem hj
    rw [List.getElem?_map, List.getElem?_map, hi, hj, Option.map_some, Option.map_some,
      Option.some.injEq, Walker.place, Walker.place, Position.mk.injEq] at heq
    -- the table has one index for a position
    have hsame := hc.unique hi
    rw [heq.1, heq.2.1, hc.unique hj] at hsame
    exact hij.ne (Option.some.inj hsame).symm
  have hsubset : a.nodes.map w.place ⊆ twoSteps.map w.position.shift := by
    intro pos hpos
    obtain ⟨node, hnode, rfl⟩ := List.mem_map.mp hpos
    obtain ⟨i, hi⟩ := List.mem_iff_getElem?.mp hnode
    obtain ⟨d, hd, hplace⟩ := hnear hi
    exact List.mem_map.mpr ⟨d, hd, hplace.symm⟩
  have hle := hnodup.length_le_of_subset hsubset
  rw [List.length_map, List.length_map] at hle
  exact hle.trans_lt (by decide)

theorem visitNeighbor_isSome (hroom : a.nodes.length < MAX_NODES) :
    (visitNeighbor w pathCondition fpp n node a d).isSome := by
  unfold visitNeighbor
  dsimp only
  split
  · rfl
  · split
    · split
      · rfl
      · split <;> rfl
    · split
      · rfl
      · unfold AStarNodes.createOpenNode
        dsimp only
        rw [if_neg (not_le.mpr hroom)]
        rfl

/-- With room left at the end every neighbour was visited, and what its visit establishes lasts. -/
theorem visitNeighbors_forall {P : AStarNodes → Prop} {Q : ℤ × ℤ → AStarNodes → Prop}
    {found : Bool} {offsets : List (ℤ × ℤ)}
    (hoffsets : ∀ d ∈ offsets,
      d ∈ allNeighbors ∧ (fpp.allowDiagonal = false → n ≠ 0 → ¬Diagonal d))
    (hstep : ∀ a a' d, d ∈ offsets → SearchTree w pathCondition fpp a → a.nodes[n]? = some node →
      Visited w pathCondition fpp n node ((w.place node).shift d) a a' → P a →
      P a' ∧ Q d a' ∧ ∀ e, Q e a → Q e a')
    (ha : SearchTree w pathCondition fpp a) (hn : a.nodes[n]? = some node) (hP : P a)
    (h : visitNeighbors w pathCondition fpp found n node offsets a = some a')
    (hroom : a'.nodes.length < MAX_NODES) : ∀ d ∈ offsets, Q d a' := by
  induction offsets generalizing a with
  | nil => exact nofun
  | cons d offsets ih =>
    rw [visitNeighbors] at h
    split at h
    · next b hb =>
      have hvisited := visited_of_visitNeighbor ha hb
      obtain ⟨hd, hstraight⟩ := hoffsets d List.mem_cons_self
      obtain ⟨hb', hn'⟩ := ha.of_visited hn hd hstraight hvisited
      obtain ⟨hPb, hQ, -⟩ := hstep a b d List.mem_cons_self ha hn hvisited hP
      have hrest : ∀ e ∈ offsets, e ∈ d :: offsets := fun e he => List.mem_cons_of_mem _ he
      have hforall := ih (fun e he => hoffsets e (hrest e he))
        (fun a a' e he => hstep a a' e (hrest e he)) hb' hn' hPb h
      have hQ' := visitNeighbors_invariant (P := fun a => P a ∧ Q d a)
        (fun e he => hoffsets e (hrest e he))
        (fun a a' e he ha hn hvisited hPQ => by
          obtain ⟨hP, -, hlast⟩ := hstep a a' e (hrest e he) ha hn hvisited hPQ.1
          exact ⟨hP, hlast d hPQ.2⟩) hb' hn' ⟨hPb, hQ⟩ h
      intro e he
      rcases List.mem_cons.mp he with rfl | he
      · exact hQ'.2.2
      · exact hforall e he
    · next hnone =>
      -- there was no room for this neighbour, and so there is none at the end
      split at h
      · rw [← Option.some.inj h] at hroom
        have hsome : (visitNeighbor w pathCondition fpp n node a d).isSome :=
          visitNeighbor_isSome hroom
        rw [hnone] at hsome
        cases hsome
      · cases h

/-! ## Ways over clear neighbours -/

/-- The neighbours between a diagonal one and the start. -/
def legs (d : ℤ × ℤ) : List (ℤ × ℤ) := [(d.1, 0), (0, d.2)]

/-- A position that costs nothing extra. -/
def Clear (w : Walker) (pathCondition : PathCondition) (fpp : FindPathParams) (pos : Position) :
    Prop :=
  Enters w pathCondition fpp pos ∧ w.getTileWalkCost (w.getTile pos) = 0

/-- A child of the start at a diagonal offset. -/
def Slanted (w : Walker) (node : AStarNode) : Prop :=
  node.parent = some 0 ∧ ∃ d ∈ allNeighbors, Diagonal d ∧ w.place node = w.position.shift d

/-- What holds once the start is expanded: its clear neighbours stay its children, and when one of
them is expanded, its diagonal neighbours are no longer children of the start. A diagonal child of
the start waits until then. -/
structure Explored (w : Walker) (pathCondition : PathCondition) (fpp : FindPathParams)
    (a : AStarNodes) : Prop where
  expanded : a.openNodes 0 = false
  clear : ∀ {c}, c ∈ allNeighbors → ¬Diagonal c →
    Clear w pathCondition fpp (w.position.shift c) →
      ∃ (i : ℕ) (node : _), a.nodes[i]? = some node ∧ node.parent = some 0 ∧
        w.place node = w.position.shift c
  turned : ∀ {d c}, d ∈ allNeighbors → Diagonal d → c ∈ legs d →
    Clear w pathCondition fpp (w.position.shift c) → ∀ {i j : ℕ} {node other},
      a.nodes[i]? = some node → w.place node = w.position.shift c → a.openNodes i = false →
      a.nodes[j]? = some other → w.place other = w.position.shift d → other.parent ≠ some 0
  unused : ∀ {j : ℕ} {node}, a.nodes[j]? = some node → Slanted w node →
    a.openNodes j = true ∧ ∀ {k : ℕ} {child}, a.nodes[k]? = some child → child.parent ≠ some j
  near : ∀ {i : ℕ} {node}, a.openNodes i = true → a.nodes[i]? = some node →
    node.f = MAP_NORMALWALKCOST → ∀ {k : ℕ} {other}, a.nodes[k]? = some other →
      Near w (w.place other)

/-- What a step costs that does not cross the edge of the map. -/
theorem Inland.newf_shift (h : Inland w pathCondition fpp (w.place node)) (hd : d ∈ allNeighbors)
    (hq : Enters w pathCondition fpp ((w.place node).shift d)) :
    newf w node ((w.place node).shift d) = node.f +
      (if Diagonal d then MAP_DIAGONALWALKCOST else MAP_NORMALWALKCOST) +
        w.getTileWalkCost (w.getTile ((w.place node).shift d)) := by
  obtain ⟨hx, hy⟩ := h d hd hq
  have hdx : (node.x.toNat : ℤ) - ((w.place node).shift d).x.toNat = -d.1 := by
    have hnode : (w.place node).x = node.x := rfl
    rw [hx, hnode]
    omega
  have hdy : (node.y.toNat : ℤ) - ((w.place node).shift d).y.toNat = -d.2 := by
    have hnode : (w.place node).y = node.y := rfl
    rw [hy, hnode]
    omega
  have hcost : ∀ d ∈ allNeighbors, (if (-d.1).natAbs = (-d.2).natAbs then MAP_DIAGONALWALKCOST
      else MAP_NORMALWALKCOST) = if Diagonal d then MAP_DIAGONALWALKCOST
        else MAP_NORMALWALKCOST := by
    decide
  rw [newf, AStarNodes.getMapWalkCost, hdx, hdy, hcost d hd]

/-- What a child of the start costs. -/
theorem Charted.f_of_parent (hc : Charted w a) (ha : SearchTree w pathCondition fpp a)
    (hseam : Seamless w pathCondition fpp) (hi : a.nodes[i]? = some child)
    (hparent : child.parent = some 0) (hd : d ∈ allNeighbors)
    (hplace : w.place child = w.position.shift d) :
    child.f = (if Diagonal d then MAP_DIAGONALWALKCOST else MAP_NORMALWALKCOST) +
      w.getTileWalkCost (w.getTile (w.position.shift d)) := by
  have hi0 : i ≠ 0 := by
    rintro rfl
    rw [Option.some.inj (hi.symm.trans ha.start)] at hparent
    cases hparent
  have henters := ha.enters hi hi0
  rw [hplace] at henters
  have hstart : w.place w.startNode = w.position := rfl
  rw [← hstart] at henters
  have hinland : Inland w pathCondition fpp (w.place w.startNode) := hseam.inland (Or.inl hstart)
  have hstep := hinland.newf_shift hd henters
  rw [hstart] at hstep
  rw [hc.f_eq hi hparent, hplace, hstep, Walker.startNode, Nat.zero_add]

/-- After its visit a neighbour costs no more than over the visiting node. -/
theorem Visited.f_le (hc : Charted w a) (ha : SearchTree w pathCondition fpp a)
    (h : Visited w pathCondition fpp n node ((w.place node).shift d) a a')
    (hi : a'.nodes[i]? = some child) (hplace : w.place child = (w.place node).shift d) :
    child.f ≤ newf w node (w.place child) := by
  obtain ⟨hold, -⟩ | ⟨hfresh, -⟩ := h.old_or_fresh ha hi
  · have hchild := hc.unique hold
    have hindex : ∀ {j : ℕ} {old : AStarNode}, a.nodes[j]? = some old →
        w.place old = (w.place node).shift d → j = i := by
      intro j old hj hpos
      rw [← hpos, Walker.place, Walker.place, Position.mk.injEq] at hplace
      rw [hplace.1, hplace.2.1, hc.unique hj] at hchild
      exact Option.some.inj hchild
    cases h with
    | out hpos =>
      by_cases hzero : i = 0
      · subst hzero
        rw [Option.some.inj (hold.symm.trans ha.start)]
        exact Nat.zero_le _
      · have henters := ha.enters hold hzero
        rw [hplace] at henters
        exact absurd henters hpos
    | cheap j old hpos hj hf =>
      obtain rfl := hindex hj hpos
      rw [Option.some.inj (hold.symm.trans hj), hpos]
      exact hf
    | relink j old hpos hj hf =>
      obtain rfl := hindex hj hpos
      rw [AStarNodes.getElem?_relink hj, if_pos rfl] at hi
      rw [← Option.some.inj hi, ← hpos]
      exact le_rfl
    | create hpos hnew hroom =>
      rw [← hplace] at hnew
      cases hchild.symm.trans hnew
  · exact hfresh.f_eq.le

/-- Once a neighbour of the start is expanded, all around it cost no more than over it. -/
theorem f_le_of_visitNeighbors {found : Bool} (hc : Charted w a)
    (ha : SearchTree w pathCondition fpp a) (hn : a.nodes[n]? = some node) {c : ℤ × ℤ}
    (hcmem : c ∈ allNeighbors) (hnode : w.place node = w.position.shift c)
    (hnear : ∀ {i : ℕ} {other}, a.nodes[i]? = some other → Near w (w.place other))
    (h : visitNeighbors w pathCondition fpp found n node
      (neighbors fpp (node.parent.bind fun p => a.nodes[p]?) node) a = some a') :
    ∀ e ∈ neighbors fpp (node.parent.bind fun p => a.nodes[p]?) node, ∀ {i : ℕ} {child},
      a'.nodes[i]? = some child → w.place child = (w.place node).shift e →
        child.f ≤ newf w node (w.place child) := by
  have hoffsets : ∀ e ∈ neighbors fpp (node.parent.bind fun p => a.nodes[p]?) node,
      e ∈ allNeighbors ∧ (fpp.allowDiagonal = false → n ≠ 0 → ¬Diagonal e) :=
    offsets_of_neighbors ha hn
  have hkeep : ∀ b b' e, e ∈ neighbors fpp (node.parent.bind fun p => a.nodes[p]?) node →
      SearchTree w pathCondition fpp b → b.nodes[n]? = some node →
      Visited w pathCondition fpp n node ((w.place node).shift e) b b' →
      (Charted w b ∧ ∀ {i : ℕ} {other}, b.nodes[i]? = some other → Near w (w.place other)) →
      Charted w b' ∧ ∀ {i : ℕ} {other}, b'.nodes[i]? = some other → Near w (w.place other) := by
    rintro b b' e he ha hn hvisited ⟨hc, hnear⟩
    refine ⟨hc.of_visited ha hn hvisited, fun hi => ?_⟩
    obtain ⟨hold, -⟩ | ⟨hfresh, -⟩ := hvisited.old_or_fresh ha hi
    · exact hnear hold
    · rw [hfresh.place, hnode]
      exact near_shift_shift hcmem (hoffsets e he).1
  obtain ⟨-, hc', hnear'⟩ := visitNeighbors_invariant
    (P := fun a => Charted w a ∧ ∀ {i : ℕ} {other}, a.nodes[i]? = some other →
      Near w (w.place other)) hoffsets hkeep ha hn ⟨hc, hnear⟩ h
  refine visitNeighbors_forall (P := fun a => Charted w a ∧ ∀ {i : ℕ} {other},
      a.nodes[i]? = some other → Near w (w.place other))
    (Q := fun e a => ∀ {i : ℕ} {child}, a.nodes[i]? = some child →
      w.place child = (w.place node).shift e → child.f ≤ newf w node (w.place child))
    hoffsets (fun b b' e he ha hn hvisited hP => ?_) ha hn ⟨hc, hnear⟩ h (hc'.length_lt hnear')
  refine ⟨hkeep b b' e he ha hn hvisited hP, fun hi => hvisited.f_le hP.1 ha hi, ?_⟩
  intro e' hQ i child hi hplace
  obtain ⟨hold, -⟩ | ⟨hfresh, -⟩ := hvisited.old_or_fresh ha hi
  · exact hQ hold hplace
  · exact hfresh.f_eq.le

/-- A node that is expanded after the start has no child that is as cheap as one step. -/
theorem Fresh.dear (h : Fresh w pathCondition fpp n node d child) (hne : n ≠ 0)
    (hge : MAP_NORMALWALKCOST ≤ node.f) :
    ¬(child.parent = some 0 ∨ child.f = MAP_NORMALWALKCOST) := by
  rintro (hparent | hf)
  · exact hne (Option.some.inj (h.parent.symm.trans hparent))
  · have hle := le_newf w node (w.place child)
    have hpos : 0 < MAP_NORMALWALKCOST := by decide
    rw [h.f_eq] at hf
    omega

theorem Explored.of_visited (hx : Explored w pathCondition fpp a) (hc : Charted w a)
    (ha : SearchTree w pathCondition fpp a) (hseam : Seamless w pathCondition fpp)
    (hn : a.nodes[n]? = some node) (hne : n ≠ 0) (hnot : ¬Slanted w node)
    (hd : d ∈ allNeighbors)
    (hbest : ∀ {i : ℕ} {other}, a.openNodes i = true → a.nodes[i]? = some other →
      other.f = MAP_NORMALWALKCOST → ∃ c ∈ allNeighbors, w.place node = w.position.shift c)
    (h : Visited w pathCondition fpp n node ((w.place node).shift d) a a') :
    Explored w pathCondition fpp a' := by
  have hge := hc.f_ge hn hne
  constructor
  · rw [h.openNodes_zero ha]
    exact hx.expanded
  · intro c hcmem hstraight hclear
    obtain ⟨i, child, hi, hparent, hplace⟩ := hx.clear hcmem hstraight hclear
    refine ⟨i, child, h.kept hi ?_, hparent, hplace⟩
    rw [hc.f_of_parent ha hseam hi hparent hcmem hplace, if_neg hstraight, hclear.2]
    exact (Nat.le_add_left _ _).trans (le_newf w node _)
  · intro d' c hd' hdiagonal hcmem hclear i j child other hi hplace hclosed hj hother
    obtain ⟨hiold, -⟩ | ⟨-, hopen⟩ := h.old_or_fresh ha hi
    · obtain ⟨hjold, -⟩ | ⟨hfresh, -⟩ := h.old_or_fresh ha hj
      · refine hx.turned hd' hdiagonal hcmem hclear hiold hplace ?_ hjold hother
        rw [← Bool.not_eq_true] at hclosed ⊢
        exact fun hopen => hclosed (h.openNodes hopen)
      · exact fun hparent => hfresh.dear hne hge (Or.inl hparent)
    · rw [hopen] at hclosed
      cases hclosed
  · intro j child hj hslanted
    obtain ⟨hold, -⟩ | ⟨hfresh, -⟩ := h.old_or_fresh ha hj
    · obtain ⟨hopen, hparent⟩ := hx.unused hold hslanted
      refine ⟨h.openNodes hopen, fun hk heq => ?_⟩
      obtain ⟨hkold, -⟩ | ⟨hkfresh, -⟩ := h.old_or_fresh ha hk
      · exact hparent hkold heq
      · -- the visiting node is no diagonal child of the start
        obtain rfl := Option.some.inj (hkfresh.parent.symm.trans heq)
        rw [Option.some.inj (hn.symm.trans hold)] at hnot
        exact hnot hslanted
    · exact absurd (Or.inl hslanted.1) (hfresh.dear hne hge)
  · intro i child hopen hi hf k other hk
    obtain ⟨hiold, hopen_old⟩ | ⟨hfresh, -⟩ := h.old_or_fresh ha hi
    · obtain ⟨hkold, -⟩ | ⟨hkfresh, -⟩ := h.old_or_fresh ha hk
      · exact hx.near (hopen_old hopen) hiold hf hkold
      · obtain ⟨c, hcmem, hplace⟩ := hbest (hopen_old hopen) hiold hf
        rw [hkfresh.place, hplace]
        exact near_shift_shift hcmem hd
    · exact absurd (Or.inr hf) (hfresh.dear hne hge)

theorem Explored.closeNode (hx : Explored w pathCondition fpp a)
    (hn : a.nodes[n]? = some node) (hnot : ¬Slanted w node)
    (hturned : ∀ {d c}, d ∈ allNeighbors → Diagonal d → c ∈ legs d →
      Clear w pathCondition fpp (w.position.shift c) → w.place node = w.position.shift c →
      ∀ {j : ℕ} {other}, a.nodes[j]? = some other → w.place other = w.position.shift d →
        other.parent ≠ some 0) :
    Explored w pathCondition fpp (a.closeNode n) := by
  constructor
  · rw [AStarNodes.openNodes_closeNode, hx.expanded, Bool.false_and]
  · exact hx.clear
  · intro d c hd hdiagonal hc hclear i j child other hi hplace hclosed hj hother
    by_cases hin : i = n
    · subst hin
      rw [Option.some.inj (hi.symm.trans hn)] at hplace
      exact hturned hd hdiagonal hc hclear hplace hj hother
    · rw [AStarNodes.openNodes_closeNode, bne_iff_ne.mpr hin, Bool.and_true] at hclosed
      exact hx.turned hd hdiagonal hc hclear hi hplace hclosed hj hother
  · intro j child hj hslanted
    obtain ⟨hopen, hparent⟩ := hx.unused hj hslanted
    have hjn : j ≠ n := by
      rintro rfl
      rw [Option.some.inj (hn.symm.trans hj)] at hnot
      exact hnot hslanted
    refine ⟨?_, hparent⟩
    rw [AStarNodes.openNodes_closeNode, hopen, Bool.true_and]
    exact bne_iff_ne.mpr hjn
  · intro i child hopen hi hf
    rw [AStarNodes.openNodes_closeNode, Bool.and_eq_true] at hopen
    exact hx.near hopen.1 hi hf

/-- Without diagonal steps a child of the start is expanded to both sides. -/
theorem side_mem_neighbors (hallow : fpp.allowDiagonal = false) {c : ℤ × ℤ}
    (hd : d ∈ allNeighbors) (hdiagonal : Diagonal d) (hc : c ∈ legs d)
    (hx : (node.x.toNat : ℤ) = w.position.x.toNat + c.1)
    (hy : (node.y.toNat : ℤ) = w.position.y.toNat + c.2) :
    (d.1 - c.1, d.2 - c.2) ∈ neighbors fpp (some w.startNode) node := by
  have hdx : (w.startNode.x.toNat : ℤ) - node.x.toNat = -c.1 := by
    have hstart : w.startNode.x = w.position.x := rfl
    rw [hstart, hx]
    omega
  have hdy : (w.startNode.y.toNat : ℤ) - node.y.toNat = -c.2 := by
    have hstart : w.startNode.y = w.position.y := rfl
    rw [hstart, hy]
    omega
  have hside : ∀ d ∈ allNeighbors, Diagonal d → ∀ c ∈ legs d, (d.1 - c.1, d.2 - c.2) ∈
      (if -c.2 = 0 then if -c.1 = -1 then Direction.WEST else .EAST
        else if -c.2 = -1 then .NORTH else .SOUTH).dirNeighbors.take 3 := by
    decide
  unfold neighbors
  dsimp only
  rw [hdx, hdy, hallow, Bool.not_false, Bool.true_or, if_pos rfl]
  exact hside d hd hdiagonal c hc

theorem Seamless.ne_shift (hseam : Seamless w pathCondition fpp) (hd : d ∈ allNeighbors) :
    w.position ≠ w.position.shift d := by
  intro heq
  obtain ⟨hx, hy⟩ := hseam _ _ (Or.inl rfl) (Or.inl rfl) d hd heq
  have hall : ∀ d ∈ allNeighbors, ¬(d.1 = 0 ∧ d.2 = 0) := by decide
  exact hall d hd ⟨by omega, by omega⟩

/-- A position has a node that costs no more than `f`. -/
def Known (w : Walker) (a : AStarNodes) (pos : Position) (f : ℕ) : Prop :=
  ∃ (i : ℕ) (node : _), a.nodes[i]? = some node ∧ w.place node = pos ∧ node.f ≤ f

theorem Visited.known (h : Visited w pathCondition fpp n node ((w.place node).shift d) a a')
    (henters : Enters w pathCondition fpp ((w.place node).shift d)) :
    Known w a' ((w.place node).shift d) (newf w node ((w.place node).shift d)) := by
  cases h with
  | out hpos => exact absurd henters hpos
  | cheap j old hpos hold hf => exact ⟨j, old, hold, hpos, hf⟩
  | relink j old hpos hold hf =>
    exact ⟨j, _, (AStarNodes.getElem?_relink hold).trans (if_pos rfl), hpos, le_rfl⟩
  | create hpos hnew hroom =>
    exact ⟨_, _, AStarNodes.getElem?_create.trans (if_pos rfl), rfl, le_rfl⟩

theorem Known.of_visited {pos : Position} {f : ℕ} (hknown : Known w a pos f)
    (h : Visited w pathCondition fpp n node ((w.place node).shift d) a a') :
    Known w a' pos f := by
  obtain ⟨i, child, hi, hplace, hf⟩ := hknown
  obtain ⟨child', hi', hplace', hf'⟩ := h.le hi
  exact ⟨i, child', hi', hplace'.trans hplace, hf'.trans hf⟩

/-- The children of the start, before any of them is expanded. -/
structure Budding (w : Walker) (a : AStarNodes) : Prop where
  charted : Charted w a
  child : ∀ {i : ℕ} {child}, a.nodes[i]? = some child → i ≠ 0 → child.parent = some 0 ∧
    a.openNodes i = true ∧ ∃ d ∈ allNeighbors, w.place child = w.position.shift d

theorem Budding.near (h : Budding w a) (ha : SearchTree w pathCondition fpp a)
    (hi : a.nodes[i]? = some child) : Near w (w.place child) := by
  by_cases hzero : i = 0
  · subst hzero
    rw [ha.place_zero hi]
    refine ⟨(0, 0), by decide, ?_⟩
    have hzero : UInt16.ofInt 0 = 0 := rfl
    rw [Position.shift, ofInt_add, ofInt_add, hzero, UInt16.add_zero, UInt16.add_zero]
  · obtain ⟨-, -, d, hd, hplace⟩ := h.child hi hzero
    rw [hplace]
    exact near_shift hd

/-- The start is expanded in the first round. -/
theorem explored_start (hseam : Seamless w pathCondition fpp) {found : Bool}
    (h : visitNeighbors w pathCondition fpp found 0 w.startNode allNeighbors
      (AStarNodes.start w.position.x w.position.y) = some a') :
    Charted w a' ∧ Explored w pathCondition fpp (a'.closeNode 0) := by
  have hoffsets : ∀ d ∈ allNeighbors, d ∈ allNeighbors ∧
      (fpp.allowDiagonal = false → 0 ≠ 0 → ¬Diagonal d) :=
    fun d hd => ⟨hd, fun _ hne => absurd rfl hne⟩
  have hbudding : Budding w (AStarNodes.start w.position.x w.position.y) := by
    refine ⟨charted_start, fun {i} _ hi hne => ?_⟩
    obtain ⟨hlt, -⟩ := List.getElem?_eq_some_iff.mp hi
    exact absurd (Nat.lt_one_iff.mp hlt) hne
  have hkeep : ∀ a a' d, d ∈ allNeighbors → SearchTree w pathCondition fpp a →
      a.nodes[0]? = some w.startNode →
      Visited w pathCondition fpp 0 w.startNode ((w.place w.startNode).shift d) a a' →
      Budding w a → Budding w a' := by
    intro a a' d hd ha hn hvisited hb
    refine ⟨hb.charted.of_visited ha hn hvisited, fun hi hne => ?_⟩
    obtain ⟨hold, -⟩ | ⟨hfresh, hopen⟩ := hvisited.old_or_fresh ha hi
    · obtain ⟨hparent, hopen, hplace⟩ := hb.child hold hne
      exact ⟨hparent, hvisited.openNodes hopen, hplace⟩
    · exact ⟨hfresh.parent, hopen, d, hd, hfresh.place⟩
  obtain ⟨ha', hb⟩ := visitNeighbors_invariant hoffsets hkeep searchTree_start rfl hbudding h
  have hreached := visitNeighbors_forall (P := Budding w)
    (Q := fun c a => Enters w pathCondition fpp (w.position.shift c) →
      Known w a (w.position.shift c) (newf w w.startNode (w.position.shift c)))
    hoffsets (fun a a' d hd ha hn hvisited hb =>
      ⟨hkeep a a' d hd ha hn hvisited hb, hvisited.known,
        fun c hc henters => (hc henters).of_visited hvisited⟩)
    searchTree_start rfl hbudding h (hb.charted.length_lt (hb.near ha'))
  have hzero : ∀ {i : ℕ} {child} {c}, c ∈ allNeighbors → a'.nodes[i]? = some child →
      w.place child = w.position.shift c → i ≠ 0 := by
    rintro i child c hc hi hplace rfl
    exact hseam.ne_shift hc ((ha'.place_zero hi).symm.trans hplace)
  have hopen : ∀ {i : ℕ}, i ≠ 0 → (a'.closeNode 0).openNodes i = a'.openNodes i := by
    intro i hne
    rw [AStarNodes.openNodes_closeNode, bne_iff_ne.mpr hne, Bool.and_true]
  refine ⟨hb.charted, ?_⟩
  constructor
  · rw [AStarNodes.openNodes_closeNode, bne_self_eq_false, Bool.and_false]
  · intro c hc _ hclear
    obtain ⟨i, child, hi, hplace, -⟩ := hreached c hc hclear.1
    exact ⟨i, child, hi, (hb.child hi (hzero hc hi hplace)).1, hplace⟩
  · intro d c hd hdiagonal hc _ i j child other hi hplace hclosed
    have hall : ∀ d ∈ allNeighbors, Diagonal d → ∀ c ∈ legs d, c ∈ allNeighbors := by decide
    have hne := hzero (hall d hd hdiagonal c hc) hi hplace
    rw [hopen hne, (hb.child hi hne).2.1] at hclosed
    cases hclosed
  · intro j child hj hslanted
    obtain ⟨-, d, hd, -, hplace⟩ := hslanted
    have hne := hzero hd hj hplace
    refine ⟨(hopen hne).trans (hb.child hj hne).2.1, fun {k} other hk hparent => ?_⟩
    by_cases hk0 : k = 0
    · subst hk0
      rw [← Option.some.inj (ha'.start.symm.trans hk)] at hparent
      cases hparent
    · exact hne (Option.some.inj ((hb.child hk hk0).1.symm.trans hparent)).symm
  · intro i child _ _ _ k other hk
    exact hb.near ha' hk

/-! ## The search -/

/-- Without diagonal steps, every diagonal neighbour of the start that can be entered has a clear
one beside it. -/
def Straight (w : Walker) (pathCondition : PathCondition) (fpp : FindPathParams) : Prop :=
  fpp.allowDiagonal = false → ∀ d ∈ allNeighbors, Diagonal d →
    Enters w pathCondition fpp (w.position.shift d) →
      ∃ c ∈ legs d, Clear w pathCondition fpp (w.position.shift c)

theorem leg_mem_allNeighbors {c : ℤ × ℤ} (hd : d ∈ allNeighbors) (hdiagonal : Diagonal d)
    (hc : c ∈ legs d) : c ∈ allNeighbors ∧ ¬Diagonal c ∧
      (d.1 - c.1, d.2 - c.2) ∈ allNeighbors ∧ ¬Diagonal (d.1 - c.1, d.2 - c.2) := by
  have hall : ∀ d ∈ allNeighbors, Diagonal d → ∀ c ∈ legs d, c ∈ allNeighbors ∧ ¬Diagonal c ∧
      (d.1 - c.1, d.2 - c.2) ∈ allNeighbors ∧ ¬Diagonal (d.1 - c.1, d.2 - c.2) := by
    decide
  exact hall d hd hdiagonal c hc

/-- The best node is no diagonal child of the start: a clear neighbour is cheaper, or has been
expanded. -/
theorem Explored.not_slanted (hx : Explored w pathCondition fpp a) (hc : Charted w a)
    (ha : SearchTree w pathCondition fpp a) (hseam : Seamless w pathCondition fpp)
    (hstraight : Straight w pathCondition fpp) (hallow : fpp.allowDiagonal = false)
    (hbest : a.getBestNode = some n) (hn : a.nodes[n]? = some node) : ¬Slanted w node := by
  rintro ⟨hparent, d, hd, hdiagonal, hplace⟩
  have hne : n ≠ 0 := by
    rintro rfl
    rw [← Option.some.inj (ha.start.symm.trans hn)] at hparent
    cases hparent
  have henters := ha.enters hn hne
  rw [hplace] at henters
  obtain ⟨c, hcmem, hclear⟩ := hstraight hallow d hd hdiagonal henters
  obtain ⟨hcall, hcstraight, -, -⟩ := leg_mem_allNeighbors hd hdiagonal hcmem
  obtain ⟨i, child, hi, hchild, hcplace⟩ := hx.clear hcall hcstraight hclear
  obtain ⟨-, hleast⟩ := AStarNodes.getBestNode_spec hbest hn
  cases hopen : a.openNodes i with
  | true =>
    have hle := hleast i child hopen hi
    rw [hc.f_of_parent ha hseam hn hparent hd hplace, if_pos hdiagonal,
      hc.f_of_parent ha hseam hi hchild hcall hcplace, if_neg hcstraight, hclear.2] at hle
    have hlt : MAP_NORMALWALKCOST < MAP_DIAGONALWALKCOST := by decide
    omega
  | false => exact hx.turned hd hdiagonal hcmem hclear hi hcplace hopen hn hplace hparent

/-- A clear neighbour that is expanded takes the diagonal ones beside it from the start. -/
theorem Explored.turned_of_visitNeighbors (hx : Explored w pathCondition fpp a)
    (hc : Charted w a) (ha : SearchTree w pathCondition fpp a) (hc' : Charted w a')
    (ha' : SearchTree w pathCondition fpp a') (hseam : Seamless w pathCondition fpp)
    (hallow : fpp.allowDiagonal = false) (hopen : a.openNodes n = true)
    (hn : a.nodes[n]? = some node) {found : Bool}
    (h : visitNeighbors w pathCondition fpp found n node
      (neighbors fpp (node.parent.bind fun p => a.nodes[p]?) node) a = some a')
    {c : ℤ × ℤ} (hd : d ∈ allNeighbors) (hdiagonal : Diagonal d) (hcmem : c ∈ legs d)
    (hclear : Clear w pathCondition fpp (w.position.shift c))
    (hplace : w.place node = w.position.shift c) {j : ℕ} {other : AStarNode}
    (hj : a'.nodes[j]? = some other) (hother : w.place other = w.position.shift d) :
    other.parent ≠ some 0 := by
  intro hparent
  obtain ⟨hcall, hcstraight, hside, hsidestraight⟩ := leg_mem_allNeighbors hd hdiagonal hcmem
  -- the node is the one child of the start that the clear position has
  obtain ⟨i, child, hi, hchild, hcplace⟩ := hx.clear hcall hcstraight hclear
  have hin : i = n := by
    have hunique := hc.unique hi
    have hsame := hcplace.trans hplace.symm
    rw [Walker.place, Walker.place, Position.mk.injEq] at hsame
    rw [hsame.1, hsame.2.1, hc.unique hn] at hunique
    exact (Option.some.inj hunique).symm
  subst hin
  obtain rfl := Option.some.inj (hi.symm.trans hn)
  have hf : child.f = MAP_NORMALWALKCOST := by
    rw [hc.f_of_parent ha hseam hi hchild hcall hcplace, if_neg hcstraight, hclear.2]
    rfl
  have hbind : (child.parent.bind fun p => a.nodes[p]?) = some w.startNode := by
    rw [hchild, Option.bind_some, ha.start]
    rfl
  obtain ⟨hxc, hyc⟩ := hseam w.position (w.place child) (Or.inl rfl) (ha.place hi) c hcall hcplace
  have hmem : (d.1 - c.1, d.2 - c.2) ∈ neighbors fpp (some w.startNode) child :=
    side_mem_neighbors hallow hd hdiagonal hcmem hxc hyc
  have hshift : (w.place child).shift (d.1 - c.1, d.2 - c.2) = w.position.shift d := by
    rw [hcplace, shift_shift, add_sub_cancel, add_sub_cancel]
  have hle := f_le_of_visitNeighbors hc ha hi hcall hcplace (hx.near hopen hi hf) h _
    (by rw [hbind]; exact hmem) hj (hother.trans hshift.symm)
  have hj0 : j ≠ 0 := by
    rintro rfl
    exact hseam.ne_shift hd ((ha'.place_zero hj).symm.trans hother)
  have henters := ha'.enters hj hj0
  rw [hother] at henters hle
  rw [← hshift] at henters hle
  rw [(hseam.inland (ha.place hi)).newf_shift hside henters, if_neg hsidestraight, hf,
    hc'.f_of_parent ha' hseam hj hparent hd hother, if_pos hdiagonal, hshift] at hle
  have hlt : MAP_NORMALWALKCOST + MAP_NORMALWALKCOST < MAP_DIAGONALWALKCOST := by decide
  omega

/-- What holds from the second round on. -/
structure FirstStep (w : Walker) (pathCondition : PathCondition) (fpp : FindPathParams)
    (s : SearchState) : Prop where
  tree : SearchTree w pathCondition fpp s.nodes
  charted : Charted w s.nodes
  explored : Explored w pathCondition fpp s.nodes
  found : ∀ {n endPos node}, s.found = some (n, endPos) → s.nodes.nodes[n]? = some node →
    ¬Slanted w node

theorem FirstStep.next {s s' : SearchState} (hs : FirstStep w pathCondition fpp s)
    (hseam : Seamless w pathCondition fpp) (hstraight : Straight w pathCondition fpp)
    (hallow : fpp.allowDiagonal = false)
    (h : searchStep w pathCondition fpp s = .next s') : FirstStep w pathCondition fpp s' := by
  obtain ⟨n, node, nodes, hbest, hnode, hnodes, hclose, hfound⟩ := searchStep_next h
  obtain ⟨hopen, hleast⟩ := AStarNodes.getBestNode_spec hbest hnode
  have hnot := hs.explored.not_slanted hs.charted hs.tree hseam hstraight hallow hbest hnode
  have hne : n ≠ 0 := by
    rintro rfl
    rw [hs.explored.expanded] at hopen
    cases hopen
  have hge := hs.charted.f_ge hnode hne
  -- a best node as cheap as one step is one step away from the start
  have hone : node.f = MAP_NORMALWALKCOST →
      ∃ c ∈ allNeighbors, w.place node = w.position.shift c := by
    intro hf
    obtain ⟨p, parent, -, hparent, hlink⟩ := hs.tree.parent hnode hne
    obtain ⟨c, hc, hplace, -⟩ := hlink.offset
    by_cases hp : p = 0
    · subst hp
      rw [hs.tree.place_zero hparent] at hplace
      exact ⟨c, hc, hplace⟩
    · have hge_parent := hs.charted.f_ge hparent hp
      have hlt := hlink.f_lt
      omega
  have hoffsets : ∀ d ∈ neighbors fpp (node.parent.bind fun p => s.nodes.nodes[p]?) node,
      d ∈ allNeighbors ∧ (fpp.allowDiagonal = false → n ≠ 0 → ¬Diagonal d) :=
    offsets_of_neighbors hs.tree hnode
  obtain ⟨htree, hnode', hcharted, hexplored, hold⟩ := visitNeighbors_invariant
    (P := fun a => a.nodes[n]? = some node ∧ Charted w a ∧ Explored w pathCondition fpp a ∧
      ∀ {i : ℕ} {child}, a.nodes[i]? = some child →
        child.parent = some 0 ∨ child.f = MAP_NORMALWALKCOST →
        s.nodes.nodes[i]? = some child ∧ (a.openNodes i = true → s.nodes.openNodes i = true))
    hoffsets (fun a a' d hd ha hn hvisited hP => by
      obtain ⟨-, hc, hx, hold⟩ := hP
      obtain ⟨hdmem, hdstraight⟩ := hoffsets d hd
      refine ⟨(ha.of_visited hn hdmem hdstraight hvisited).2, hc.of_visited ha hn hvisited, ?_,
        fun hi hcheap => ?_⟩
      · refine hx.of_visited hc ha hseam hn hne hnot hdmem ?_ hvisited
        intro i other hopen hi hf
        obtain ⟨hi', hopen'⟩ := hold hi (Or.inr hf)
        exact hone (le_antisymm ((hleast i other (hopen' hopen) hi').trans_eq hf) hge)
      · obtain ⟨hi', hopen'⟩ | ⟨hfresh, -⟩ := hvisited.old_or_fresh ha hi
        · obtain ⟨hi'', hopen''⟩ := hold hi' hcheap
          exact ⟨hi'', fun hopen => hopen'' (hopen' hopen)⟩
        · exact absurd hcheap (hfresh.dear hne hge)) hs.tree hnode
    ⟨hnode, hs.charted, hs.explored, fun hi _ => ⟨hi, id⟩⟩ hnodes
  constructor
  · rw [hclose]
    exact ⟨htree.start, htree.parent, htree.enters, htree.table⟩
  · rw [hclose]
    exact ⟨hcharted.unique, hcharted.f_ge, hcharted.f_eq⟩
  · rw [hclose]
    refine hexplored.closeNode hnode' hnot ?_
    intro d c hd hdiagonal hc hclear hplace j other hj hother
    exact hs.explored.turned_of_visitNeighbors hs.charted hs.tree hcharted htree hseam hallow
      hopen hnode hnodes hd hdiagonal hc hclear hplace hj hother
  · intro k endPos child hk hchild hslanted
    rw [hclose] at hchild
    obtain ⟨hchild', -⟩ := hold hchild (Or.inl hslanted.1)
    obtain hfound | ⟨hfound, -⟩ := hfound
    · rw [hfound] at hk
      exact hs.found hk hchild' hslanted
    · rw [hfound, Option.some.injEq, Prod.mk.injEq] at hk
      rw [hk.1, hchild', Option.some.injEq] at hnode
      rw [hnode] at hslanted
      exact hnot hslanted

theorem FirstStep.stop {s s' : SearchState} (hs : FirstStep w pathCondition fpp s)
    (hseam : Seamless w pathCondition fpp) (hstraight : Straight w pathCondition fpp)
    (hallow : fpp.allowDiagonal = false)
    (h : searchStep w pathCondition fpp s = .stop s') : FirstStep w pathCondition fpp s' := by
  obtain ⟨hnodes, hfound⟩ := searchStep_stop h
  refine ⟨hnodes ▸ hs.tree, hnodes ▸ hs.charted, hnodes ▸ hs.explored, ?_⟩
  intro k endPos child hk hchild
  rw [hnodes] at hchild
  obtain hfound | ⟨n, node, hbest, hnode, hfound, -⟩ := hfound
  · rw [hfound] at hk
    exact hs.found hk hchild
  · rw [hfound, Option.some.injEq, Prod.mk.injEq] at hk
    rw [hk.1] at hbest
    exact hs.explored.not_slanted hs.charted hs.tree hseam hstraight hallow hbest hchild

/-- A path to the position that was found starts with no diagonal step. -/
theorem FirstStep.firstStraight {s : SearchState} (hs : FirstStep w pathCondition fpp s)
    {endPos : Position} (hfound : s.found = some (n, endPos)) : FirstStraight w s.nodes n := by
  intro i child hon hi hparent d hd hplace hdiagonal
  have hslanted : Slanted w child := ⟨hparent, d, hd, hdiagonal, hplace⟩
  cases hon with
  | self => exact hs.found hfound hi hslanted
  | parent _ hnode hp => exact (hs.explored.unused hi hslanted).2 hnode hp

/-- The first round leads from the start to what holds from then on. -/
theorem firstStep_start (hseam : Seamless w pathCondition fpp) {s : SearchState}
    (h : searchStep w pathCondition fpp
      { nodes := AStarNodes.start w.position.x w.position.y } = .next s) :
    FirstStep w pathCondition fpp s := by
  have htree := (searchInv_start.next h).tree
  obtain ⟨n, node, nodes, -, hnode, hnodes, hclose, hfound⟩ := searchStep_next h
  obtain ⟨hlt, -⟩ := List.getElem?_eq_some_iff.mp hnode
  obtain rfl := Nat.lt_one_iff.mp hlt
  obtain rfl : w.startNode = node := Option.some.inj hnode
  obtain ⟨hcharted, hexplored⟩ := explored_start hseam hnodes
  refine ⟨htree, ?_, ?_, ?_⟩
  · rw [hclose]
    exact ⟨hcharted.unique, hcharted.f_ge, hcharted.f_eq⟩
  · rw [hclose]
    exact hexplored
  · intro k endPos child hk hchild hslanted
    obtain hfound | ⟨hfound, -⟩ := hfound
    · cases hfound.symm.trans hk
    · rw [hfound, Option.some.injEq, Prod.mk.injEq] at hk
      rw [← hk.1] at hchild
      have hparent := hslanted.1
      rw [← Option.some.inj (htree.start.symm.trans hchild)] at hparent
      cases hparent

/-- A path that is found without diagonal steps starts with none. -/
theorem firstStraight_of_search (hseam : Seamless w pathCondition fpp)
    (hstraight : Straight w pathCondition fpp) (hallow : fpp.allowDiagonal = false) {fuel : ℕ}
    {s : SearchState} {endPos : Position}
    (hs : search w pathCondition fpp fuel
      { nodes := AStarNodes.start w.position.x w.position.y } = some (.stop s))
    (hfound : s.found = some (n, endPos)) : FirstStraight w s.nodes n := by
  refine search_invariant
    (P := fun s => s = { nodes := AStarNodes.start w.position.x w.position.y } ∨
      FirstStep w pathCondition fpp s)
    (Q := fun s => ∀ {n endPos}, s.found = some (n, endPos) → FirstStraight w s.nodes n)
    ?_ ?_ (Or.inl rfl) hs hfound
  · rintro s s' (rfl | hfirst) hstep
    · exact Or.inr (firstStep_start hseam hstep)
    · exact Or.inr (hfirst.next hseam hstraight hallow hstep)
  · rintro s s' (rfl | hfirst) hstep n endPos hfound i child hon hi hparent
    · -- the start has no parent
      obtain ⟨hnodes, -⟩ := searchStep_stop hstep
      rw [hnodes] at hi
      obtain ⟨hlt, -⟩ := List.getElem?_eq_some_iff.mp hi
      obtain rfl := Nat.lt_one_iff.mp hlt
      obtain rfl : w.startNode = child := Option.some.inj hi
      cases hparent
    · exact (hfirst.stop hseam hstraight hallow hstep).firstStraight hfound i child hon hi hparent

end FirstStep

end OTServBR
