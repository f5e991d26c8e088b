import OTServBR.Map.Leaves
import OTServBR.Tile.Basic

/-! # Tiles in the quad tree

Every leaf keeps a floor for each layer, and every floor its eight by eight
tiles. A tile is set through the leaf that is created for it, which links the
leaf to its neighbours if it is a new one, and it is found again by a descent
of its own. Where there is a tile already, the items of a new one go to it.
-/

namespace OTServBR

/-- A tile object with its address. -/
structure TileObject where
  ref : ℕ
  tile : Tile
  deriving DecidableEq, Repr

namespace TileObject

variable (types : Items)

/-- `addThing` for the items of a new tile, from the last to the first, and for its ground. -/
def merge (tile newTile : TileObject) : TileObject :=
  let things := newTile.tile.items.items.reverse ++ newTile.tile.ground.toList
  { tile with tile := things.foldl (fun t i => t.addThing types (.item i)) tile.tile }

/-- The first tile with all that the later ones bring. -/
def merged : List TileObject → Option TileObject
  | [] => none
  | first :: later => some (later.foldl (merge types) first)

variable {types}

theorem merged_concat (tiles : List TileObject) (newTile : TileObject) :
    merged types (tiles ++ [newTile]) =
      some (match merged types tiles with
        | some tile => tile.merge types newTile
        | none => newTile) := by
  cases tiles with
  | nil => rfl
  | cons first later => rw [List.cons_append, merged, merged, List.foldl_append]; rfl

/-- A merge keeps the object. -/
theorem ref_merged (tiles : List TileObject) :
    (merged types tiles).map (·.ref) = tiles.head?.map (·.ref) := by
  cases tiles with
  | nil => rfl
  | cons first later =>
    have hfold : ∀ tile : TileObject, (later.foldl (merge types) tile).ref = tile.ref := by
      induction later with
      | nil => exact fun _ => rfl
      | cons newTile later ih => exact fun tile => ih (tile.merge types newTile)
    exact congrArg some (hfold first)

end TileObject

structure Floor where
  tiles : ℕ × ℕ → Option TileObject := fun _ => none

structure Quadtree extends Map where
  /-- The static member of `QTreeLeafNode`. -/
  newLeaf : Bool := false
  /-- The floors of the leaves, by the leaf and the layer. -/
  array : ℕ × ℕ → Option Floor := fun _ => none

namespace Quadtree

open QTreeNode

/-! ## The descents -/

/-- The loop that looks at a child before it goes on to it. -/
def getLeafStatic : QTreeNode → UInt32 → UInt32 → Option ℕ
  | .node child, x, y =>
    match child (index x y) with
    | .null => none
    | .leaf i => some i
    | .node _ => getLeafStatic (child (index x y)) (x <<< 1) (y <<< 1)
  | _, _, _ => none

theorem getLeafStatic_eq {t : QTreeNode} (hnode : ∃ child, t = .node child) (x y : UInt32) :
    getLeafStatic t x y = t.getLeaf x y := by
  induction t generalizing x y with
  | null => simp at hnode
  | leaf i => simp at hnode
  | node child ih =>
    have hnext := fun hnode => ih (index x y) hnode (x <<< 1) (y <<< 1)
    rw [getLeafStatic, getLeaf]
    cases hchild : child (index x y) with
    | null => rfl
    | leaf i => rfl
    | node grandchild =>
      rw [hchild] at hnext
      exact hnext ⟨grandchild, rfl⟩

/-- What `createLeaf` leaves behind: the tree, the leaf that it returns, and the static flag. -/
structure Created where
  node : QTreeNode
  leaf : Option ℕ
  newLeaf : Bool

def createLeaf (fresh : ℕ) : ℕ → QTreeNode → UInt32 → UInt32 → Bool → Created
  | level + 1, .node child, x, y, newLeaf =>
    let index := index x y
    let c := match child index with
      | .null => if level + 1 ≠ FLOOR_BITS then .node fun _ => .null else .leaf fresh
      | c => c
    let newLeaf := match child index with
      | .null => if level + 1 ≠ FLOOR_BITS then newLeaf else true
      | _ => newLeaf
    let created := createLeaf fresh level c (x * 2) (y * 2) newLeaf
    { created with node := .node (Function.update child index created.node) }
  | _, .leaf i, _, _, newLeaf => { node := .leaf i, leaf := some i, newLeaf := newLeaf }
  | _, t, _, _, newLeaf => { node := t, leaf := none, newLeaf := newLeaf }

/-- The leaf that is returned is the one that is found, and the flag says if there was none. -/
theorem createLeaf_eq {fresh d : ℕ} {t : QTreeNode} (h : t.Depth d) (hnull : t ≠ .null)
    (x y : UInt32) (newLeaf : Bool) :
    createLeaf fresh (d + 2) t x y newLeaf =
      { node := t.createLeaf fresh (d + 2) x y
        leaf := some ((t.getLeaf x y).getD fresh)
        newLeaf := newLeaf || (t.getLeaf x y).isNone } := by
  induction d generalizing t x y newLeaf with
  | zero =>
    cases t with
    | null => exact absurd rfl hnull
    | node child => exact h.elim
    | leaf i => simp [createLeaf, QTreeNode.createLeaf, getLeaf]
  | succ d ih =>
    cases t with
    | null => exact absurd rfl hnull
    | leaf i => exact h.elim
    | node child =>
      have hchild := h (index x y)
      rw [createLeaf, QTreeNode.createLeaf, getLeaf, mul_two_eq, mul_two_eq]
      cases hc : child (index x y) with
      | null =>
        cases d with
        | zero =>
          have hlevel : ¬0 + 2 + 1 ≠ FLOOR_BITS := not_not_intro rfl
          have hleaf : Trie.Depth 0 (.leaf fresh : QTreeNode) := trivial
          dsimp only
          rw [if_neg hlevel, if_neg hlevel, ih hleaf (by simp)]
          simp [getLeaf]
        | succ d =>
          have hlevel : d + 1 + 2 + 1 ≠ FLOOR_BITS := by
            unfold FLOOR_BITS
            omega
          have hnodes : Trie.Depth (d + 1) (.node fun _ => .null : QTreeNode) :=
            fun _ => Trie.depth_null d
          dsimp only
          rw [if_pos hlevel, if_pos hlevel, ih hnodes (by simp)]
          simp [getLeaf]
      | node grandchild =>
        rw [hc] at hchild
        dsimp only
        rw [ih hchild (by simp)]
      | leaf i =>
        rw [hc] at hchild
        dsimp only
        rw [ih hchild (by simp)]

/-! ## Tiles -/

variable (types : Items) (m : Quadtree)

def FLOOR_MASK : UInt16 := 7

/-- The place of a tile on its floor. -/
def offset (x y : UInt16) : ℕ × ℕ := ((x &&& FLOOR_MASK).toNat, (y &&& FLOOR_MASK).toNat)

def getTile (x y : UInt16) (z : UInt8) : Option TileObject :=
  if MAP_MAX_LAYERS ≤ z.toNat then none
  else
    (getLeafStatic m.root x.toUInt32 y.toUInt32).bind fun leaf =>
      (m.array (leaf, z.toNat)).bind fun floor => floor.tiles (offset x y)

/-- The last part of `setTile`: the floor is created and the tile put or merged. -/
def putTile (leaf : ℕ) (x y : UInt16) (z : UInt8) (newTile : TileObject) : Quadtree :=
  let floor := (m.array (leaf, z.toNat)).getD {}
  let tile := match floor.tiles (offset x y) with
    | some tile => tile.merge types newTile
    | none => newTile
  let floor := { floor with tiles := Function.update floor.tiles (offset x y) (some tile) }
  { m with array := Function.update m.array (leaf, z.toNat) (some floor) }

/-- There is no more to say where `createLeaf` comes to no leaf. -/
def setTile (x y : UInt16) (z : UInt8) (newTile : TileObject) : Quadtree :=
  if MAP_MAX_LAYERS ≤ z.toNat then m
  else
    let fresh := m.leaves.length
    let created := createLeaf fresh 15 m.root x.toUInt32 y.toUInt32 false
    let leaves := if created.newLeaf then m.leaves ++ [({} : QTreeLeafNode)] else m.leaves
    let map := { m.toMap with root := created.node, leaves := leaves }
    match created.leaf with
    | none => { m with toMap := map, newLeaf := created.newLeaf }
    | some leaf =>
      let map := if created.newLeaf then map.link leaf x.toUInt32 y.toUInt32 else map
      putTile types { m with toMap := map, newLeaf := created.newLeaf } leaf x y z newTile

/-- The arguments of a call. -/
structure Call where
  x : UInt16
  y : UInt16
  z : UInt8
  newTile : TileObject

def run (calls : List Call) : Quadtree :=
  calls.foldl (fun m c => m.setTile types c.x c.y c.z c.newTile) {}

/-- The tiles that the calls set at a coordinate. -/
def tilesAt (calls : List Call) (x y : UInt16) (z : UInt8) : List TileObject :=
  (calls.filter fun c => c.x = x ∧ c.y = y ∧ c.z = z).map (·.newTile)

variable {types} {m} {a b x y : UInt16} {c z : UInt8} {newTile : TileObject}

/-! ## What setting a tile does -/

/-- Every leaf lies under some coordinate, links to its neighbours, and has its own floors. -/
structure Valid (m : Quadtree) : Prop where
  linked : m.Linked
  array_eq_none : ∀ i z, m.leaves.length ≤ i → m.array (i, z) = none
  exists_getLeaf : ∀ i < m.leaves.length, ∃ x y : UInt16,
    m.getLeaf x.toUInt32 y.toUInt32 = some i

theorem valid_empty : Valid {} := by
  constructor
  · exact Map.linked_empty
  · exact fun _ _ _ => rfl
  · exact fun i hi => absurd hi (Nat.not_lt_zero i)

/-- The leaf of a coordinate after a tile was set there. -/
def leafAt (m : Quadtree) (x y : UInt16) : ℕ :=
  (m.getLeaf x.toUInt32 y.toUInt32).getD m.leaves.length

/-- The tree is the one that the links are proved of. -/
theorem setTile_eq (types : Items) (h : m.Linked) (hz : ¬MAP_MAX_LAYERS ≤ c.toNat)
    (newTile : TileObject) : ∃ newLeaf, m.setTile types a b c newTile =
      putTile types { m with toMap := m.toMap.setTile a b c, newLeaf := newLeaf }
        (m.leafAt a b) a b c newTile := by
  obtain ⟨child, hchild⟩ := h.root_eq_node
  have hnull : m.root ≠ .null := by simp [hchild]
  have hcreate : createLeaf m.leaves.length 15 m.root a.toUInt32 b.toUInt32 false = _ :=
    createLeaf_eq h.depth hnull a.toUInt32 b.toUInt32 false
  unfold setTile
  rw [if_neg hz]
  dsimp only
  rw [hcreate]
  cases hi : m.getLeaf a.toUInt32 b.toUInt32 with
  | none =>
    refine ⟨true, ?_⟩
    have hroot : m.root.getLeaf a.toUInt32 b.toUInt32 = none := hi
    rw [Map.setTile_of_eq_none hz hi, leafAt, hi, hroot]
    rfl
  | some i =>
    refine ⟨false, ?_⟩
    have hroot : m.root.getLeaf a.toUInt32 b.toUInt32 = some i := hi
    rw [Map.setTile_of_eq_some hz hi, leafAt, hi, hroot]
    rfl

theorem column_toUInt32 (x : UInt16) : column x.toUInt32 = x.toNat / 8 := by
  have hx := x.toNat_lt
  rw [column, UInt16.toNat_toUInt32]
  omega

theorem column_add_eight (x : UInt16) : column (x + 8).toUInt32 = column (x.toUInt32 + 8) := by
  have hx := x.toNat_lt
  have height : (8 : UInt16).toNat = 8 := rfl
  rw [column_add, column_toUInt32, column_toUInt32, UInt16.toNat_add, height]
  omega

/-- A coordinate is its column and its place on the floor. -/
theorem offset_eq_iff (hx : column x.toUInt32 = column a.toUInt32)
    (hy : column y.toUInt32 = column b.toUInt32) : offset x y = offset a b ↔ x = a ∧ y = b := by
  have hmask : ∀ x : UInt16, (x &&& FLOOR_MASK).toNat = x.toNat % 8 :=
    fun x => Nat.and_two_pow_sub_one_eq_mod x.toNat 3
  rw [column_toUInt32, column_toUInt32] at hx hy
  rw [offset, offset, Prod.mk.injEq, hmask, hmask, hmask, hmask, ← UInt16.toNat_inj,
    ← UInt16.toNat_inj]
  omega

theorem getLeaf_setTile (h : m.Linked) (hz : ¬MAP_MAX_LAYERS ≤ c.toNat) (x y : UInt32) :
    (m.toMap.setTile a b c).getLeaf x y =
      if column x = column a.toUInt32 ∧ column y = column b.toUInt32 then some (m.leafAt a b)
      else m.getLeaf x y := by
  cases hi : m.getLeaf a.toUInt32 b.toUInt32 with
  | none =>
    rw [Map.setTile_of_eq_none hz hi, Map.getLeaf_link, h.getLeaf_withLeaf, leafAt]
  | some i =>
    have hget : (m.toMap.setTile a b c).getLeaf x y =
        (m.withLeaf a.toUInt32 b.toUInt32).getLeaf x y := by
      rw [Map.setTile_of_eq_some hz hi]
      rfl
    rw [hget, h.getLeaf_withLeaf, leafAt]

theorem leafAt_lt_length (h : m.Linked) (hz : ¬MAP_MAX_LAYERS ≤ c.toNat) :
    m.leafAt a b < (m.toMap.setTile a b c).leaves.length := by
  apply (h.setTile a b c).lt_length (x := a.toUInt32) (y := b.toUInt32)
  rw [getLeaf_setTile h hz, if_pos ⟨rfl, rfl⟩]

theorem length_le_length_setTile (m : Map) : m.leaves.length ≤ (m.setTile a b c).leaves.length := by
  obtain heq | ⟨-, heq⟩ | ⟨-, heq⟩ := Map.setTile_cases m a b c
  · rw [heq]
  · rw [heq]
  · rw [heq, Map.length_link]
    exact Map.lt_length_withLeaf.le

/-- A leaf after the call is an old one or that of the coordinate. -/
theorem lt_length_or_eq (m : Map) {i : ℕ} (hi : i < (m.setTile a b c).leaves.length) :
    i < m.leaves.length ∨ i = m.leaves.length ∧ m.getLeaf a.toUInt32 b.toUInt32 = none := by
  obtain heq | ⟨-, heq⟩ | ⟨hnone, heq⟩ := Map.setTile_cases m a b c
  · exact Or.inl (heq ▸ hi)
  · rw [heq] at hi
    exact Or.inl hi
  · rw [heq, Map.length_link, Map.withLeaf, List.length_append, List.length_singleton] at hi
    rcases Nat.lt_succ_iff_lt_or_eq.mp hi with hlt | rfl
    · exact Or.inl hlt
    · exact Or.inr ⟨rfl, hnone⟩

/-- A floor by its coordinate. -/
def floorAt (m : Quadtree) (x y : UInt16) (z : UInt8) : Option Floor :=
  (m.getLeaf x.toUInt32 y.toUInt32).bind fun leaf => m.array (leaf, z.toNat)

theorem getTile_eq (h : m.Linked) (x y : UInt16) (z : UInt8) : m.getTile x y z =
    if MAP_MAX_LAYERS ≤ z.toNat then none
    else (m.floorAt x y z).bind fun floor => floor.tiles (offset x y) := by
  rw [getTile, getLeafStatic_eq h.root_eq_node, floorAt, Option.bind_assoc]
  rfl

namespace Valid

variable (h : m.Valid)

include h

theorem floorAt_eq (x y : UInt16) (z : UInt8) :
    m.floorAt x y z = m.array (m.leafAt x y, z.toNat) := by
  rw [floorAt, leafAt]
  cases m.getLeaf x.toUInt32 y.toUInt32 with
  | none => exact (h.array_eq_none _ _ le_rfl).symm
  | some i => rfl

theorem leafAt_ne (hne : ¬(column x.toUInt32 = column a.toUInt32 ∧
    column y.toUInt32 = column b.toUInt32)) {i : ℕ}
    (hi : m.getLeaf x.toUInt32 y.toUInt32 = some i) : i ≠ m.leafAt a b := by
  rintro rfl
  rw [leafAt] at hi
  cases hget : m.getLeaf a.toUInt32 b.toUInt32 with
  | none =>
    rw [hget, Option.getD_none] at hi
    exact lt_irrefl _ (h.linked.lt_length hi)
  | some j =>
    rw [hget, Option.getD_some] at hi
    exact hne (h.linked.column_eq hi hget)

theorem setTile (a b : UInt16) (c : UInt8) (newTile : TileObject) :
    Valid (m.setTile types a b c newTile) := by
  by_cases hz : MAP_MAX_LAYERS ≤ c.toNat
  · rw [Quadtree.setTile, if_pos hz]
    exact h
  · obtain ⟨newLeaf, heq⟩ := setTile_eq types h.linked hz newTile
    rw [heq]
    constructor
    · exact h.linked.setTile a b c
    · intro i z hi
      have hlt : m.leafAt a b < _ := leafAt_lt_length h.linked hz
      have hne : (i, z) ≠ (m.leafAt a b, c.toNat) :=
        fun hpair => (hlt.trans_le hi).ne' (congrArg Prod.fst hpair)
      have hupdate := Function.update_of_ne hne (β := fun _ => Option Floor)
      refine (hupdate _ _).trans (h.array_eq_none i z ?_)
      exact (length_le_length_setTile m.toMap).trans hi
    · intro i hi
      obtain hold | ⟨rfl, hnone⟩ := lt_length_or_eq m.toMap hi
      · obtain ⟨x, y, hget⟩ := h.exists_getLeaf i hold
        exact ⟨x, y, (h.linked.extends_setTile a b c).getLeaf_eq hget⟩
      · refine ⟨a, b, (getLeaf_setTile h.linked hz _ _).trans ?_⟩
        rw [if_pos ⟨rfl, rfl⟩, leafAt, hnone, Option.getD_none]

/-- Setting a tile writes to one place of one floor. -/
theorem floorAt_setTile (hz : ¬MAP_MAX_LAYERS ≤ c.toNat) :
    (m.setTile types a b c newTile).floorAt x y z =
      if column x.toUInt32 = column a.toUInt32 ∧ column y.toUInt32 = column b.toUInt32 ∧ z = c then
        let floor := (m.floorAt a b c).getD {}
        some { floor with
          tiles := Function.update floor.tiles (offset a b) (some
            (match floor.tiles (offset a b) with
              | some tile => tile.merge types newTile
              | none => newTile)) }
      else m.floorAt x y z := by
  obtain ⟨newLeaf, heq⟩ := setTile_eq types h.linked hz newTile
  have hget := fun x y => getLeaf_setTile (a := a) (b := b) h.linked hz x y
  have hfloor := h.floorAt_eq a b c
  rw [heq, putTile, ← hfloor, floorAt]
  change ((m.toMap.setTile a b c).getLeaf x.toUInt32 y.toUInt32).bind _ = _
  rw [hget]
  by_cases hcolumn : column x.toUInt32 = column a.toUInt32 ∧ column y.toUInt32 = column b.toUInt32
  · rw [if_pos hcolumn, Option.bind_some]
    dsimp only
    by_cases hlayer : z = c
    · subst hlayer
      rw [Function.update_self, if_pos ⟨hcolumn.1, hcolumn.2, rfl⟩]
    · have hne : (m.leafAt a b, z.toNat) ≠ (m.leafAt a b, c.toNat) :=
        fun hpair => hlayer (UInt8.toNat_inj.mp (congrArg Prod.snd hpair))
      have hleaf : m.leafAt x y = m.leafAt a b := by
        rw [leafAt, leafAt, h.linked.getLeaf_congr hcolumn.1 hcolumn.2]
      rw [Function.update_of_ne hne, if_neg fun hall => hlayer hall.2.2, h.floorAt_eq, hleaf]
  · rw [if_neg hcolumn, if_neg fun hall => hcolumn ⟨hall.1, hall.2.1⟩, floorAt]
    refine Option.bind_congr fun i hi => ?_
    have hne : (i, z.toNat) ≠ (m.leafAt a b, c.toNat) :=
      fun hpair => h.leafAt_ne hcolumn hi (congrArg Prod.fst hpair)
    exact Function.update_of_ne hne _ _

theorem getTile_setTile (hz : ¬MAP_MAX_LAYERS ≤ c.toNat) :
    (m.setTile types a b c newTile).getTile x y z =
      if x = a ∧ y = b ∧ z = c then
        some (match m.getTile a b c with
          | some tile => tile.merge types newTile
          | none => newTile)
      else m.getTile x y z := by
  rw [getTile_eq (h.setTile a b c newTile).linked, getTile_eq h.linked, getTile_eq h.linked,
    h.floorAt_setTile hz, if_neg hz]
  by_cases hlayer : MAP_MAX_LAYERS ≤ z.toNat
  · have hne : ¬(x = a ∧ y = b ∧ z = c) := by
      rintro ⟨-, -, rfl⟩
      exact hz hlayer
    rw [if_pos hlayer, if_pos hlayer, if_neg hne]
  · rw [if_neg hlayer, if_neg hlayer]
    by_cases hleaf : column x.toUInt32 = column a.toUInt32 ∧
        column y.toUInt32 = column b.toUInt32 ∧ z = c
    · obtain ⟨hx, hy, rfl⟩ := hleaf
      have hfloor : m.floorAt x y z = m.floorAt a b z := by
        rw [floorAt, floorAt, h.linked.getLeaf_congr hx hy]
      have hold : ∀ place, (m.floorAt a b z).bind (fun floor => floor.tiles place) =
          ((m.floorAt a b z).getD {}).tiles place := by
        intro place
        cases m.floorAt a b z <;> rfl
      rw [if_pos ⟨hx, hy, rfl⟩, Option.bind_some, hfloor, hold, hold]
      dsimp only
      by_cases hplace : x = a ∧ y = b
      · rw [if_pos ⟨hplace.1, hplace.2, rfl⟩, (offset_eq_iff hx hy).mpr hplace,
          Function.update_self]
      · have hne : offset x y ≠ offset a b := fun heq => hplace ((offset_eq_iff hx hy).mp heq)
        rw [if_neg fun hall => hplace ⟨hall.1, hall.2.1⟩, Function.update_of_ne hne]
    · have hne : ¬(x = a ∧ y = b ∧ z = c) := by
        rintro ⟨rfl, rfl, rfl⟩
        exact hleaf ⟨rfl, rfl, rfl⟩
      rw [if_neg hleaf, if_neg hne]

end Valid

/-! ## Runs -/

theorem run_concat (calls : List Call) (call : Call) : run types (calls ++ [call]) =
    (run types calls).setTile types call.x call.y call.z call.newTile :=
  List.foldl_concat ..

theorem tilesAt_concat (calls : List Call) (call : Call) (x y : UInt16) (z : UInt8) :
    tilesAt (calls ++ [call]) x y z =
      if x = call.x ∧ y = call.y ∧ z = call.z then tilesAt calls x y z ++ [call.newTile]
      else tilesAt calls x y z := by
  unfold tilesAt
  rw [List.filter_append, List.map_append]
  split_ifs with hcall
  · obtain ⟨rfl, rfl, rfl⟩ := hcall
    simp
  · have hne : ¬(call.x = x ∧ call.y = y ∧ call.z = z) :=
      fun ⟨hx, hy, hz⟩ => hcall ⟨hx.symm, hy.symm, hz.symm⟩
    simp [hne]

theorem valid_run (calls : List Call) : Valid (run types calls) := by
  induction calls using List.reverseRecOn with
  | nil => exact valid_empty
  | append_singleton calls call ih =>
    rw [run_concat]
    exact ih.setTile ..

theorem getTile_run (calls : List Call) (x y : UInt16) (z : UInt8) :
    (run types calls).getTile x y z =
      if MAP_MAX_LAYERS ≤ z.toNat then none
      else TileObject.merged types (tilesAt calls x y z) := by
  induction calls using List.reverseRecOn generalizing x y z with
  | nil =>
    rw [getTile]
    rfl
  | append_singleton calls call ih =>
    rw [run_concat]
    by_cases hz : MAP_MAX_LAYERS ≤ call.z.toNat
    · rw [setTile, if_pos hz, ih]
      split_ifs with hlayer
      · rfl
      · have hne : ¬(x = call.x ∧ y = call.y ∧ z = call.z) := by
          rintro ⟨-, -, rfl⟩
          exact hlayer hz
        rw [tilesAt_concat, if_neg hne]
    · rw [(valid_run calls).getTile_setTile hz, ih, ih, if_neg hz, tilesAt_concat]
      split_ifs with hcall hlayer hlayer
      · obtain ⟨-, -, rfl⟩ := hcall
        exact absurd hlayer hz
      · obtain ⟨rfl, rfl, rfl⟩ := hcall
        rw [TileObject.merged_concat]
      · rfl
      · rfl

/-- The links and the tiles of the map after any calls: a coordinate has the tile that was set
there first, with all that was merged into it since, both descents find the same leaves, and every
leaf links to the leaves east and south of it, around the edge of the map as well. -/
theorem quadtree_links (types : Items) (calls : List Call) :
    let m := run types calls
    (∀ x y z, m.getTile x y z =
      if z.toNat < MAP_MAX_LAYERS then TileObject.merged types (tilesAt calls x y z) else none) ∧
    (∀ x y z, (m.getTile x y z).map (·.ref) =
      if z.toNat < MAP_MAX_LAYERS then (tilesAt calls x y z).head?.map (·.ref) else none) ∧
    (∀ x y, m.root.getLeaf x y = getLeafStatic m.root x y) ∧
    (∀ i < m.leaves.length, ∃ x y : UInt16, m.root.getLeaf x.toUInt32 y.toUInt32 = some i) ∧
    ∀ (x y : UInt16) (i : ℕ), m.root.getLeaf x.toUInt32 y.toUInt32 = some i →
      i < m.leaves.length ∧
      (m.leaf i).leafE = m.root.getLeaf (x + 8).toUInt32 y.toUInt32 ∧
      (m.leaf i).leafS = m.root.getLeaf x.toUInt32 (y + 8).toUInt32 := by
  intro m
  have hvalid : m.Valid := valid_run calls
  have htile : ∀ x y z, m.getTile x y z =
      if z.toNat < MAP_MAX_LAYERS then TileObject.merged types (tilesAt calls x y z) else none := by
    intro x y z
    rw [getTile_run]
    split_ifs with hhigh hlow hlow
    · exact absurd hlow (Nat.not_lt.mpr hhigh)
    · rfl
    · rfl
    · exact absurd (Nat.not_lt.mp hlow) hhigh
  refine ⟨htile, ?_, ?_, hvalid.exists_getLeaf, ?_⟩
  · intro x y z
    rw [htile]
    split_ifs
    · exact TileObject.ref_merged _
    · rfl
  · exact fun x y => (getLeafStatic_eq hvalid.linked.root_eq_node x y).symm
  · intro x y i hi
    refine ⟨hvalid.linked.lt_length hi, ?_, ?_⟩
    · exact (hvalid.linked.leafE_eq hi).trans
        (hvalid.linked.getLeaf_congr (column_add_eight x).symm rfl)
    · exact (hvalid.linked.leafS_eq hi).trans
        (hvalid.linked.getLeaf_congr rfl (column_add_eight y).symm)

end Quadtree

end OTServBR
