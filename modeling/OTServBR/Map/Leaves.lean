import Mathlib.Data.Nat.Bitwise
import OTServBR.Map.Basic

/-! # Leaves of the map

Coordinates in the same columns of leaves lead to the same leaf, and other
coordinates to another one. Every leaf links to the leaves south and east of
it, around the edge of the map as well, and lists the creatures on it.
-/

namespace OTServBR

/-- The column of leaves, or the row of them, that a coordinate lies in. -/
def column (x : UInt32) : ℕ := x.toNat / 8 % 2 ^ 13

theorem column_add (x : UInt32) : column (x + 8) = (column x + 1) % 2 ^ 13 := by
  rw [column, column, UInt32.toNat_add]
  have h : (8 : UInt32).toNat = 8 := rfl
  omega

theorem column_add_eq_iff {x y : UInt32} :
    column (x + 8) = column y ↔ column x = column (y - 8) := by
  have hy : column y = (column (y - 8) + 1) % 2 ^ 13 := by
    rw [← column_add, UInt32.sub_add_cancel]
  have hlt : ∀ z, column z < 2 ^ 13 := fun z => Nat.mod_lt _ (by decide)
  have hx := hlt x
  have hy' := hlt (y - 8)
  rw [column_add, hy]
  omega

namespace QTreeNode

/-- The children on the way to the leaf of the coordinates. -/
def path : ℕ → UInt32 → UInt32 → List (Fin 4)
  | 0, _, _ => []
  | d + 1, x, y => index x y :: path d (x <<< 1) (y <<< 1)

@[simp] theorem length_path (d : ℕ) (x y : UInt32) : (path d x y).length = d := by
  induction d generalizing x y with
  | zero => rfl
  | succ d ih => rw [path, List.length_cons, ih]

theorem getLeaf_eq_get {d : ℕ} {t : QTreeNode} (h : t.Depth d) (x y : UInt32) :
    t.getLeaf x y = t.get (path d x y) := by
  induction d generalizing t x y with
  | zero =>
    cases t with
    | null => rfl
    | node child => exact h.elim
    | leaf i => rfl
  | succ d ih =>
    cases t with
    | null => rfl
    | node child => exact ih (h _) _ _
    | leaf i => exact h.elim

theorem testBit_shiftLeft_one (x : UInt32) {k : ℕ} (hk : k < 31) :
    (x <<< 1).toNat.testBit (k + 1) = x.toNat.testBit k := by
  rw [UInt32.toNat_shiftLeft, Nat.testBit_mod_two_pow, Nat.testBit_shiftLeft]
  have h : (1 : UInt32).toNat % 32 = 1 := rfl
  rw [h, decide_eq_true (by omega), decide_eq_true (by omega)]
  simp

theorem mul_two_eq (x : UInt32) : x * 2 = x <<< (1 : UInt32) := by
  rw [← UInt32.toNat_inj, UInt32.toNat_mul, UInt32.toNat_shiftLeft, Nat.shiftLeft_eq]
  rfl

theorem and_ne_zero_eq (x : UInt32) : (x &&& 0x8000 != 0) = x.toNat.testBit 15 := by
  have hand : (x &&& 0x8000).toBitVec =
      if x.toNat.testBit 15 then BitVec.twoPow 32 15 else 0#32 := by
    rw [UInt32.toBitVec_and]
    exact BitVec.and_twoPow x.toBitVec 15
  rw [Bool.eq_iff_iff, bne_iff_ne, ne_eq, ← UInt32.toBitVec_inj, hand]
  split
  · next h =>
    simp only [h, iff_true]
    decide
  · next h => simp [h]

theorem index_eq_iff {x y x' y' : UInt32} : index x y = index x' y' ↔
    x.toNat.testBit 15 = x'.toNat.testBit 15 ∧ y.toNat.testBit 15 = y'.toNat.testBit 15 := by
  unfold index
  rw [and_ne_zero_eq, and_ne_zero_eq, and_ne_zero_eq, and_ne_zero_eq]
  cases x.toNat.testBit 15 <;> cases y.toNat.testBit 15 <;> cases x'.toNat.testBit 15 <;>
    cases y'.toNat.testBit 15 <;> decide

/-- The way to a leaf is a matter of the upper bits. -/
theorem path_eq_iff {d : ℕ} (hd : d ≤ 16) {x y x' y' : UInt32} : path d x y = path d x' y' ↔
    ∀ k < d, x.toNat.testBit (15 - k) = x'.toNat.testBit (15 - k) ∧
      y.toNat.testBit (15 - k) = y'.toNat.testBit (15 - k) := by
  induction d generalizing x y x' y' with
  | zero => simp [path]
  | succ d ih =>
    rw [path, path, List.cons.injEq, index_eq_iff, ih (by omega), Nat.forall_lt_succ_left]
    refine and_congr Iff.rfl (forall₂_congr fun k hk => ?_)
    have hindex : 15 - k = (15 - (k + 1)) + 1 := by omega
    rw [hindex, testBit_shiftLeft_one _ (by omega), testBit_shiftLeft_one _ (by omega),
      testBit_shiftLeft_one _ (by omega), testBit_shiftLeft_one _ (by omega)]

theorem column_eq_iff {x x' : UInt32} : column x = column x' ↔
    ∀ k < 13, x.toNat.testBit (15 - k) = x'.toNat.testBit (15 - k) := by
  have hbit : ∀ (x : UInt32) j,
      (column x).testBit j = (decide (j < 13) && x.toNat.testBit (j + 3)) := by
    intro x j
    rw [column, Nat.testBit_mod_two_pow, show 8 = 2 ^ 3 from rfl, Nat.testBit_div_two_pow]
  constructor
  · intro h k hk
    have hj := congrArg (·.testBit (12 - k)) h
    simp only [hbit] at hj
    rw [decide_eq_true (by omega), Bool.true_and, Bool.true_and] at hj
    rwa [show 15 - k = 12 - k + 3 by omega]
  · intro h
    refine Nat.eq_of_testBit_eq fun j => ?_
    rw [hbit, hbit]
    by_cases hj : j < 13
    · have hk := h (12 - j) (by omega)
      rw [show 15 - (12 - j) = j + 3 by omega] at hk
      rw [hk]
    · rw [decide_eq_false hj, Bool.false_and, Bool.false_and]

theorem path_eq_iff_column {x y x' y' : UInt32} :
    path 13 x y = path 13 x' y' ↔ column x = column x' ∧ column y = column y' := by
  rw [path_eq_iff (by decide), column_eq_iff, column_eq_iff]
  constructor
  · exact fun h => ⟨fun k hk => (h k hk).1, fun k hk => (h k hk).2⟩
  · exact fun h k hk => ⟨h.1 k hk, h.2 k hk⟩

/-- The leaf is created along the way to it. -/
theorem createLeaf_eq_create {fresh d : ℕ} {child : Fin 4 → QTreeNode}
    (h : Trie.Depth (d + 1) (.node child)) (x y : UInt32) :
    createLeaf fresh (d + 3) (.node child) x y =
      Trie.create fresh (.node child) (path (d + 1) x y) := by
  induction d generalizing child x y with
  | zero =>
    have hchild := h (index x y)
    rw [createLeaf, path, Trie.create]
    congr 1
    cases hc : child (index x y) with
    | null => rfl
    | node grandchild =>
      rw [hc] at hchild
      exact hchild.elim
    | leaf i => rfl
  | succ d ih =>
    have hchild := h (index x y)
    rw [createLeaf, path, Trie.create]
    congr 2
    rw [mul_two_eq, mul_two_eq]
    cases hc : child (index x y) with
    | null =>
      have hlevel : d + 1 + 2 + 1 ≠ FLOOR_BITS := by
        unfold FLOOR_BITS
        omega
      dsimp only
      rw [if_pos hlevel]
      exact ih (fun _ => Trie.depth_null _) _ _
    | node grandchild =>
      rw [hc] at hchild
      exact ih hchild _ _
    | leaf i =>
      rw [hc] at hchild
      exact hchild.elim

theorem depth_createLeaf {fresh : ℕ} {child : Fin 4 → QTreeNode} {t : QTreeNode}
    (hnode : t = .node child) (h : t.Depth 13) (x y : UInt32) :
    (createLeaf fresh 15 t x y).Depth 13 := by
  subst hnode
  rw [createLeaf_eq_create h]
  have hdepth := Trie.depth_create fresh (w := path 13 x y) (t := .node child)
  rw [length_path] at hdepth
  exact hdepth h

theorem createLeaf_eq_node {fresh : ℕ} {child : Fin 4 → QTreeNode} {t : QTreeNode}
    (hnode : t = .node child) (x y : UInt32) :
    ∃ child', createLeaf fresh 15 t x y = .node child' := by
  subst hnode
  exact ⟨_, rfl⟩

/-- The leaf of the given columns is there afterwards, all others are as they were. -/
theorem getLeaf_createLeaf {fresh : ℕ} {child : Fin 4 → QTreeNode} {t : QTreeNode}
    (hnode : t = .node child) (h : t.Depth 13) (x y x' y' : UInt32) :
    (createLeaf fresh 15 t x y).getLeaf x' y' =
      if column x' = column x ∧ column y' = column y then some ((t.getLeaf x y).getD fresh)
      else t.getLeaf x' y' := by
  have hlen : (path 13 x y).length = 13 := length_path 13 x y
  rw [getLeaf_eq_get (depth_createLeaf hnode h x y), getLeaf_eq_get h, getLeaf_eq_get h]
  subst hnode
  rw [createLeaf_eq_create h]
  rw [← hlen] at h
  split
  · next hcolumn =>
    rw [path_eq_iff_column.mpr hcolumn]
    exact Trie.get_create_self fresh h
  · next hcolumn =>
    refine Trie.get_create_of_ne fresh h ?_ fun heq => hcolumn (path_eq_iff_column.mp heq)
    rw [length_path, length_path]

end QTreeNode

namespace Map

variable {m : Map} {x y x' y' : UInt32} {i j : ℕ} {f : QTreeLeafNode → QTreeLeafNode}

/-! ## Leaves by index -/

@[simp] theorem getLeaf_modifyLeaf : (m.modifyLeaf i f).getLeaf x y = m.getLeaf x y := rfl

@[simp] theorem getQTNode_modifyLeaf {pos : Position} :
    (m.modifyLeaf i f).getQTNode pos = m.getQTNode pos := rfl

theorem length_modifyLeaf : (m.modifyLeaf i f).leaves.length = m.leaves.length :=
  List.length_modify ..

theorem leaf_modifyLeaf (hi : i < m.leaves.length) :
    (m.modifyLeaf i f).leaf j = if i = j then f (m.leaf j) else m.leaf j := by
  unfold leaf modifyLeaf
  rw [List.getD_eq_getElem?_getD, List.getD_eq_getElem?_getD, List.getElem?_modify]
  split
  · next h =>
    subst h
    rw [List.getElem?_eq_getElem hi]
    rfl
  · next h =>
    cases m.leaves[j]? <;> rfl

theorem leaf_of_le (h : m.leaves.length ≤ i) : m.leaf i = {} := by
  rw [leaf, List.getD_eq_getElem?_getD, List.getElem?_eq_none h]
  rfl

section Option
variable {i : Option ℕ}

@[simp] theorem root_modifyLeaf? : (m.modifyLeaf? i f).root = m.root := by
  cases i <;> rfl

@[simp] theorem getLeaf_modifyLeaf? : (m.modifyLeaf? i f).getLeaf x y = m.getLeaf x y := by
  cases i <;> rfl

@[simp] theorem creatures_modifyLeaf? : (m.modifyLeaf? i f).creatures = m.creatures := by
  cases i <;> rfl

@[simp] theorem position_modifyLeaf? : (m.modifyLeaf? i f).position = m.position := by
  cases i <;> rfl

@[simp] theorem length_modifyLeaf? : (m.modifyLeaf? i f).leaves.length = m.leaves.length := by
  cases i with
  | none => rfl
  | some i => exact length_modifyLeaf

theorem leaf_modifyLeaf? (hi : ∀ k, i = some k → k < m.leaves.length) :
    (m.modifyLeaf? i f).leaf j = if i = some j then f (m.leaf j) else m.leaf j := by
  cases i with
  | none => rfl
  | some i =>
    simp only [Option.some.injEq]
    exact leaf_modifyLeaf (hi i rfl)

end Option

/-! ## The links between the leaves -/

/-- The tree finds a leaf by its columns, and the leaves link to their neighbours. -/
structure Linked (m : Map) : Prop where
  root_eq_node : ∃ child, m.root = .node child
  depth : m.root.Depth 13
  lt_length : ∀ {x y i}, m.getLeaf x y = some i → i < m.leaves.length
  column_eq : ∀ {x y x' y' i}, m.getLeaf x y = some i → m.getLeaf x' y' = some i →
    column x = column x' ∧ column y = column y'
  leafE_eq : ∀ {x y i}, m.getLeaf x y = some i → (m.leaf i).leafE = m.getLeaf (x + 8) y
  leafS_eq : ∀ {x y i}, m.getLeaf x y = some i → (m.leaf i).leafS = m.getLeaf x (y + 8)

theorem linked_empty : Linked {} := by
  have hnone : ∀ {x y i}, ({} : Map).getLeaf x y ≠ some i := by
    intro x y i h
    cases h
  constructor
  · exact ⟨_, rfl⟩
  · exact fun _ => Trie.depth_null _
  · exact fun h => absurd h hnone
  · exact fun h => absurd h hnone
  · exact fun h => absurd h hnone
  · exact fun h => absurd h hnone

namespace Linked

theorem getLeaf_congr (h : Linked m) (hx : column x = column x') (hy : column y = column y') :
    m.getLeaf x y = m.getLeaf x' y' := by
  unfold getLeaf
  rw [QTreeNode.getLeaf_eq_get h.depth, QTreeNode.getLeaf_eq_get h.depth,
    QTreeNode.path_eq_iff_column.mpr ⟨hx, hy⟩]

/-- A map stays linked while its tree finds the same leaves and these keep their links. -/
theorem of_getLeaf {m' : Map} (h : Linked m) (hnode : ∃ child, m'.root = .node child)
    (hdepth : m'.root.Depth 13) (hget : ∀ x y, m'.getLeaf x y = m.getLeaf x y)
    (hlen : m'.leaves.length = m.leaves.length)
    (hE : ∀ i, (m'.leaf i).leafE = (m.leaf i).leafE)
    (hS : ∀ i, (m'.leaf i).leafS = (m.leaf i).leafS) : Linked m' := by
  constructor
  · exact hnode
  · exact hdepth
  · intro x y i hi
    rw [hget] at hi
    rw [hlen]
    exact h.lt_length hi
  · intro x y x' y' i hi hi'
    rw [hget] at hi hi'
    exact h.column_eq hi hi'
  · intro x y i hi
    rw [hget] at hi ⊢
    rw [hE]
    exact h.leafE_eq hi
  · intro x y i hi
    rw [hget] at hi ⊢
    rw [hS]
    exact h.leafS_eq hi

theorem modifyLeaf (h : Linked m) (hi : i < m.leaves.length)
    (hE : ∀ leaf, (f leaf).leafE = leaf.leafE) (hS : ∀ leaf, (f leaf).leafS = leaf.leafS) :
    Linked (m.modifyLeaf i f) := by
  apply h.of_getLeaf
  · exact h.root_eq_node
  · exact h.depth
  · exact fun _ _ => rfl
  · exact length_modifyLeaf
  · intro j
    rw [leaf_modifyLeaf hi]
    split
    · exact hE _
    · rfl
  · intro j
    rw [leaf_modifyLeaf hi]
    split
    · exact hS _
    · rfl

/-- Where the creatures are makes no difference to the links. -/
theorem with_creatures (h : Linked m) (creatures : Finset ℕ) (position : ℕ → Position) :
    Linked { m with creatures := creatures, position := position } :=
  ⟨h.root_eq_node, h.depth, h.lt_length, h.column_eq, h.leafE_eq, h.leafS_eq⟩

end Linked

/-! ## A new tile -/

section SetTile
variable {a b : UInt16} {z : UInt8}

/-- The map with a leaf for the coordinates, not linked yet. -/
def withLeaf (m : Map) (x y : UInt32) : Map :=
  { m with
    root := m.root.createLeaf m.leaves.length 15 x y
    leaves := m.leaves ++ [({} : QTreeLeafNode)] }

theorem leaf_withLeaf : (m.withLeaf x y).leaf i = m.leaf i := by
  unfold leaf withLeaf
  rw [List.getD_eq_getElem?_getD, List.getD_eq_getElem?_getD, List.getElem?_append]
  split
  · rfl
  · next h =>
    rw [List.getElem?_eq_none (l := m.leaves) (by omega)]
    cases i - m.leaves.length <;> rfl

theorem lt_length_withLeaf : m.leaves.length < (m.withLeaf x y).leaves.length := by
  rw [withLeaf, List.length_append, List.length_singleton]
  exact Nat.lt_succ_self _

theorem Linked.getLeaf_withLeaf (h : Linked m) : (m.withLeaf x y).getLeaf x' y' =
    if column x' = column x ∧ column y' = column y then
      some ((m.getLeaf x y).getD m.leaves.length)
    else m.getLeaf x' y' := by
  obtain ⟨child, hchild⟩ := h.root_eq_node
  exact QTreeNode.getLeaf_createLeaf hchild h.depth x y x' y'

theorem Linked.getLeaf_withLeaf_lt (h : Linked m) (hi : (m.withLeaf x y).getLeaf x' y' = some i) :
    i < (m.withLeaf x y).leaves.length := by
  rw [h.getLeaf_withLeaf] at hi
  rw [withLeaf, List.length_append, List.length_singleton]
  split at hi
  · have hlt := fun k => h.lt_length (x := x) (y := y) (i := k)
    cases hget : m.getLeaf x y with
    | none =>
      rw [hget] at hi
      have : m.leaves.length = i := Option.some.inj hi
      omega
    | some k =>
      rw [hget] at hi
      have : k = i := Option.some.inj hi
      have := hlt k hget
      omega
  · have := h.lt_length hi
    omega

/-- Link a leaf with its four neighbours. -/
def link (m : Map) (fresh : ℕ) (x y : UInt32) : Map :=
  (((m.modifyLeaf? (m.getLeaf x (y - 8)) fun north =>
      { north with leafS := some fresh }).modifyLeaf? (m.getLeaf (x - 8) y) fun west =>
      { west with leafE := some fresh }).modifyLeaf fresh fun leaf =>
      { leaf with leafS := (m.getLeaf x (y + 8)).or leaf.leafS }).modifyLeaf fresh fun leaf =>
      { leaf with leafE := (m.getLeaf (x + 8) y).or leaf.leafE }

theorem setTile_of_eq_none (hz : ¬MAP_MAX_LAYERS ≤ z.toNat)
    (hi : m.getLeaf a.toUInt32 b.toUInt32 = none) : m.setTile a b z =
      (m.withLeaf a.toUInt32 b.toUInt32).link m.leaves.length a.toUInt32 b.toUInt32 := by
  rw [setTile, if_neg hz]
  simp only [hi, Option.isNone_none, if_true, getLeaf_modifyLeaf?, getLeaf_modifyLeaf]
  rfl

theorem setTile_of_eq_some (hz : ¬MAP_MAX_LAYERS ≤ z.toNat)
    (hi : m.getLeaf a.toUInt32 b.toUInt32 = some i) : m.setTile a b z =
      { m with root := m.root.createLeaf m.leaves.length 15 a.toUInt32 b.toUInt32 } := by
  rw [setTile, if_neg hz]
  simp only [hi, Option.isNone_some]
  rfl

/-- All that setting a tile can do to the leaves. -/
theorem setTile_cases (m : Map) (a b : UInt16) (z : UInt8) :
    m.setTile a b z = m ∨
      (m.getLeaf a.toUInt32 b.toUInt32).isSome ∧ m.setTile a b z =
        { m with root := m.root.createLeaf m.leaves.length 15 a.toUInt32 b.toUInt32 } ∨
      m.getLeaf a.toUInt32 b.toUInt32 = none ∧ m.setTile a b z =
        (m.withLeaf a.toUInt32 b.toUInt32).link m.leaves.length a.toUInt32 b.toUInt32 := by
  by_cases hz : MAP_MAX_LAYERS ≤ z.toNat
  · rw [setTile, if_pos hz]
    exact Or.inl rfl
  · cases hi : m.getLeaf a.toUInt32 b.toUInt32 with
    | none => exact Or.inr (Or.inr ⟨rfl, setTile_of_eq_none hz hi⟩)
    | some i => exact Or.inr (Or.inl ⟨rfl, setTile_of_eq_some hz hi⟩)

section Link
variable {fresh : ℕ}

@[simp] theorem getLeaf_link : (m.link fresh x y).getLeaf x' y' = m.getLeaf x' y' := by
  simp [link]

@[simp] theorem creatures_link : (m.link fresh x y).creatures = m.creatures := by
  simp [link, modifyLeaf]

@[simp] theorem position_link : (m.link fresh x y).position = m.position := by
  simp [link, modifyLeaf]

theorem root_link : (m.link fresh x y).root = m.root := by
  simp [link, modifyLeaf]

theorem length_link : (m.link fresh x y).leaves.length = m.leaves.length := by
  simp [link, length_modifyLeaf]

theorem leaf_link (hfresh : fresh < m.leaves.length)
    (hlt : ∀ {x y k}, m.getLeaf x y = some k → k < m.leaves.length) :
    (m.link fresh x y).leaf j =
      { m.leaf j with
        leafS :=
          if fresh = j then (m.getLeaf x (y + 8)).or
            (if m.getLeaf x (y - 8) = some j then some fresh else (m.leaf j).leafS)
          else if m.getLeaf x (y - 8) = some j then some fresh else (m.leaf j).leafS
        leafE :=
          if fresh = j then (m.getLeaf (x + 8) y).or
            (if m.getLeaf (x - 8) y = some j then some fresh else (m.leaf j).leafE)
          else if m.getLeaf (x - 8) y = some j then some fresh else (m.leaf j).leafE } := by
  unfold link
  rw [leaf_modifyLeaf (by simpa [length_modifyLeaf] using hfresh),
    leaf_modifyLeaf (by simpa using hfresh),
    leaf_modifyLeaf? (by simpa using fun k => hlt), leaf_modifyLeaf? fun k => hlt]
  split <;> split <;> split <;> rfl

end Link

theorem Linked.getLeaf_withLeaf_of_isSome (h : Linked m) (hi : (m.getLeaf x y).isSome) :
    (m.withLeaf x y).getLeaf x' y' = m.getLeaf x' y' := by
  rw [h.getLeaf_withLeaf]
  split
  · next hcolumn =>
    obtain ⟨k, hk⟩ := Option.isSome_iff_exists.mp hi
    rw [h.getLeaf_congr hcolumn.1 hcolumn.2, hk]
    rfl
  · rfl

/-- The leaf of a position that has one stays where it is. -/
theorem Linked.getLeaf_withLeaf_of_eq_some (h : Linked m) (hi : m.getLeaf x' y' = some i) :
    (m.withLeaf x y).getLeaf x' y' = some i := by
  rw [h.getLeaf_withLeaf]
  split
  · next hcolumn =>
    rw [← h.getLeaf_congr hcolumn.1 hcolumn.2, hi]
    rfl
  · exact hi

/-- A leaf of the tree with the new leaf is the new one or an old one. -/
theorem Linked.getLeaf_withLeaf_eq_some (h : Linked m) (hnone : m.getLeaf x y = none)
    (hi : (m.withLeaf x y).getLeaf x' y' = some i) :
    (i = m.leaves.length ∧ column x' = column x ∧ column y' = column y) ∨
      (i < m.leaves.length ∧ ¬(column x' = column x ∧ column y' = column y) ∧
        m.getLeaf x' y' = some i) := by
  rw [h.getLeaf_withLeaf, hnone] at hi
  split at hi
  · next hcolumn => exact Or.inl ⟨(Option.some.inj hi).symm, hcolumn⟩
  · next hcolumn => exact Or.inr ⟨h.lt_length hi, hcolumn, hi⟩

theorem column_add_ne (x : UInt32) : column (x + 8) ≠ column x := by
  rw [column_add]
  have : column x < 2 ^ 13 := Nat.mod_lt _ (by decide)
  omega

theorem column_sub_ne (x : UInt32) : column (x - 8) ≠ column x := by
  have h := column_add_ne (x - 8)
  rw [UInt32.sub_add_cancel] at h
  exact h.symm

theorem Linked.getLeaf_withLeaf_congr (h : Linked m) {x₁ y₁ x₂ y₂ : UInt32}
    (hx : column x₁ = column x₂) (hy : column y₁ = column y₂) :
    (m.withLeaf x y).getLeaf x₁ y₁ = (m.withLeaf x y).getLeaf x₂ y₂ := by
  rw [h.getLeaf_withLeaf, h.getLeaf_withLeaf, h.getLeaf_congr hx hy, hx, hy]

section Neighbour
variable {nx ny px py : UInt32}

/-- The link of an old leaf to the leaf at `nx`, `ny` when the new leaf is linked from the
leaf at `px`, `py`. -/
theorem Linked.link_old (h : Linked m) (hnone : m.getLeaf x y = none)
    (hold : m.getLeaf x' y' = some i)
    (hiff : column nx = column x ∧ column ny = column y ↔
      column px = column x' ∧ column py = column y') :
    (if (m.withLeaf x y).getLeaf px py = some i then some m.leaves.length else m.getLeaf nx ny) =
      (m.withLeaf x y).getLeaf nx ny := by
  have hget : (m.withLeaf x y).getLeaf nx ny = _ := h.getLeaf_withLeaf
  rw [hget, hnone]
  split
  · next hi =>
    obtain ⟨rfl, -, -⟩ | ⟨-, -, hi⟩ := h.getLeaf_withLeaf_eq_some hnone hi
    · exact absurd (h.lt_length hold) (lt_irrefl _)
    · rw [if_pos (hiff.mpr (h.column_eq hi hold))]
      rfl
  · next hi =>
    rw [if_neg]
    intro hcolumn
    obtain ⟨hx, hy⟩ := hiff.mp hcolumn
    apply hi
    apply h.getLeaf_withLeaf_of_eq_some
    rw [h.getLeaf_congr hx hy]
    exact hold

/-- The link of the new leaf, which is not its own neighbour. -/
theorem Linked.link_new (h : Linked m) (hnone : m.getLeaf x y = none)
    (hne : ¬(column px = column x ∧ column py = column y))
    (hx : column nx = column x') (hy : column ny = column y') :
    ((m.withLeaf x y).getLeaf nx ny).or
      (if (m.withLeaf x y).getLeaf px py = some m.leaves.length then some m.leaves.length
        else none) = (m.withLeaf x y).getLeaf x' y' := by
  rw [if_neg, Option.or_none, h.getLeaf_withLeaf_congr hx hy]
  intro hi
  obtain ⟨-, hcolumn⟩ | ⟨hlt, -, -⟩ := h.getLeaf_withLeaf_eq_some hnone hi
  · exact hne hcolumn
  · exact absurd hlt (lt_irrefl _)

end Neighbour

/-- The links of the leaves are right again once the new leaf is linked. -/
theorem Linked.link_withLeaf (h : Linked m) (hnone : m.getLeaf x y = none) :
    Linked ((m.withLeaf x y).link m.leaves.length x y) := by
  have hlt : ∀ {x' y' k}, (m.withLeaf x y).getLeaf x' y' = some k →
      k < (m.withLeaf x y).leaves.length := fun hk => h.getLeaf_withLeaf_lt hk
  have hfresh : m.leaf m.leaves.length = {} := leaf_of_le le_rfl
  obtain ⟨child, hchild⟩ := h.root_eq_node
  constructor
  · rw [root_link]
    exact QTreeNode.createLeaf_eq_node hchild x y
  · rw [root_link]
    exact QTreeNode.depth_createLeaf hchild h.depth x y
  · intro x' y' i hi
    rw [getLeaf_link] at hi
    rw [length_link]
    exact hlt hi
  · intro x₁ y₁ x₂ y₂ i h₁ h₂
    rw [getLeaf_link] at h₁ h₂
    obtain ⟨rfl, hx₁, hy₁⟩ | ⟨hi₁, -, h₁⟩ := h.getLeaf_withLeaf_eq_some hnone h₁
    · obtain ⟨-, hx₂, hy₂⟩ | ⟨hi₂, -, -⟩ := h.getLeaf_withLeaf_eq_some hnone h₂
      · exact ⟨hx₁.trans hx₂.symm, hy₁.trans hy₂.symm⟩
      · exact absurd hi₂ (lt_irrefl _)
    · obtain ⟨rfl, -, -⟩ | ⟨-, -, h₂⟩ := h.getLeaf_withLeaf_eq_some hnone h₂
      · exact absurd hi₁ (lt_irrefl _)
      · exact h.column_eq h₁ h₂
  · intro x' y' i hi
    rw [getLeaf_link] at hi ⊢
    rw [leaf_link lt_length_withLeaf hlt, leaf_withLeaf]
    obtain ⟨rfl, hx, hy⟩ | ⟨hi', -, hold⟩ := h.getLeaf_withLeaf_eq_some hnone hi
    · rw [hfresh]
      dsimp only
      rw [if_pos rfl]
      refine h.link_new hnone (fun hcolumn => column_sub_ne x hcolumn.1) ?_ hy.symm
      rw [column_add, column_add, hx]
    · dsimp only
      rw [if_neg hi'.ne', h.leafE_eq hold]
      refine h.link_old hnone hold (and_congr ?_ eq_comm)
      rw [column_add_eq_iff, eq_comm]
  · intro x' y' i hi
    rw [getLeaf_link] at hi ⊢
    rw [leaf_link lt_length_withLeaf hlt, leaf_withLeaf]
    obtain ⟨rfl, hx, hy⟩ | ⟨hi', -, hold⟩ := h.getLeaf_withLeaf_eq_some hnone hi
    · rw [hfresh]
      dsimp only
      rw [if_pos rfl]
      refine h.link_new hnone (fun hcolumn => column_sub_ne y hcolumn.2) hx.symm ?_
      rw [column_add, column_add, hy]
    · dsimp only
      rw [if_neg hi'.ne', h.leafS_eq hold]
      refine h.link_old hnone hold (and_congr eq_comm ?_)
      rw [column_add_eq_iff, eq_comm]

theorem Linked.setTile (h : Linked m) (a b : UInt16) (z : UInt8) : Linked (m.setTile a b z) := by
  obtain heq | ⟨hi, heq⟩ | ⟨hi, heq⟩ := setTile_cases m a b z
  · rw [heq]
    exact h
  · rw [heq]
    obtain ⟨child, hchild⟩ := h.root_eq_node
    apply h.of_getLeaf
    · exact QTreeNode.createLeaf_eq_node hchild _ _
    · exact QTreeNode.depth_createLeaf hchild h.depth _ _
    · exact fun x y => h.getLeaf_withLeaf_of_isSome hi
    · rfl
    · exact fun _ => rfl
    · exact fun _ => rfl
  · rw [heq]
    exact h.link_withLeaf hi

/-- The map has more leaves than before; the old ones and the creatures stay. -/
structure Extends (m m' : Map) : Prop where
  creatures_eq : m'.creatures = m.creatures
  position_eq : m'.position = m.position
  getLeaf_eq : ∀ {x y i}, m.getLeaf x y = some i → m'.getLeaf x y = some i
  creature_list_eq : ∀ i, (m'.leaf i).creature_list = (m.leaf i).creature_list
  player_list_eq : ∀ i, (m'.leaf i).player_list = (m.leaf i).player_list

theorem Linked.extends_link (h : Linked m) :
    Extends m ((m.withLeaf x y).link m.leaves.length x y) := by
  have hlt : ∀ {x' y' k}, (m.withLeaf x y).getLeaf x' y' = some k →
      k < (m.withLeaf x y).leaves.length := fun hk => h.getLeaf_withLeaf_lt hk
  constructor
  · exact creatures_link
  · exact position_link
  · intro x' y' i hi
    rw [getLeaf_link]
    exact h.getLeaf_withLeaf_of_eq_some hi
  · intro i
    rw [leaf_link lt_length_withLeaf hlt, leaf_withLeaf]
  · intro i
    rw [leaf_link lt_length_withLeaf hlt, leaf_withLeaf]

theorem Linked.extends_setTile (h : Linked m) (a b : UInt16) (z : UInt8) :
    Extends m (m.setTile a b z) := by
  obtain heq | ⟨hi, heq⟩ | ⟨-, heq⟩ := setTile_cases m a b z
  · rw [heq]
    exact ⟨rfl, rfl, id, fun _ => rfl, fun _ => rfl⟩
  · rw [heq]
    constructor
    · rfl
    · rfl
    · exact fun hk => (h.getLeaf_withLeaf_of_isSome hi).trans hk
    · exact fun _ => rfl
    · exact fun _ => rfl
  · rw [heq]
    exact h.extends_link

end SetTile

end Map

end OTServBR
