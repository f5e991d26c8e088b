import Mathlib.Data.Finset.Insert
import Mathlib.Data.List.Nodup
import OTServBR.Map.Leaves

/-! # Creatures of the leaves

A leaf lists the creatures whose position it covers, and separately the players
among them. Every operation on the map keeps it so.
-/

namespace OTServBR

variable {c d : ℕ}

theorem swapRemove_perm {l : List ℕ} (h : c ∈ l) : (swapRemove c l).Perm (l.erase c) := by
  rcases l.eq_nil_or_concat with rfl | ⟨init, back, rfl⟩
  · cases h
  · rw [List.concat_eq_append] at h ⊢
    rw [swapRemove, List.getLast?_concat]
    by_cases hc : c ∈ init
    · obtain ⟨u, v, rfl, hnot⟩ := List.eq_append_cons_of_mem hc
      have hidx : ((u ++ c :: v) ++ [back]).idxOf c = u.length := by
        rw [List.idxOf_append_of_mem hc, List.idxOf_append_of_notMem hnot, List.idxOf_cons_self]
        rfl
      dsimp only
      rw [hidx, List.append_assoc, List.set_append_right _ _ le_rfl, Nat.sub_self,
        List.erase_append_right _ hnot, List.cons_append, List.set_cons_zero,
        List.erase_cons_head, ← List.cons_append, ← List.append_assoc, List.dropLast_concat]
      exact ((List.perm_append_singleton back v).symm).append_left u
    · have hback : c = back := by
        rw [List.mem_append, List.mem_singleton] at h
        exact h.resolve_left hc
      subst hback
      have hidx : (init ++ [c]).idxOf c = init.length := by
        rw [List.idxOf_append_of_notMem hc, List.idxOf_cons_self]
        rfl
      dsimp only
      rw [hidx, List.set_append_right _ _ le_rfl, Nat.sub_self, List.erase_append_right _ hc,
        List.set_cons_zero, List.erase_cons_head, List.dropLast_concat, List.append_nil]

theorem nodup_swapRemove {l : List ℕ} (h : c ∈ l) (hl : l.Nodup) : (swapRemove c l).Nodup :=
  (swapRemove_perm h).nodup_iff.mpr (hl.erase c)

theorem mem_swapRemove {l : List ℕ} (h : c ∈ l) (hl : l.Nodup) :
    d ∈ swapRemove c l ↔ d ∈ l ∧ d ≠ c := by
  rw [(swapRemove_perm h).mem_iff, hl.mem_erase_iff]
  exact and_comm

namespace QTreeLeafNode

variable {leaf : QTreeLeafNode} {isPlayer onlyPlayers : Bool}

/-- The list of a leaf that a scan reads. -/
def node_list (leaf : QTreeLeafNode) (onlyPlayers : Bool) : List ℕ :=
  if onlyPlayers then leaf.player_list else leaf.creature_list

theorem node_list_addCreature : (leaf.addCreature c isPlayer).node_list onlyPlayers =
    if onlyPlayers → isPlayer then leaf.node_list onlyPlayers ++ [c]
    else leaf.node_list onlyPlayers := by
  cases onlyPlayers <;> cases isPlayer <;> rfl

theorem node_list_removeCreature : (leaf.removeCreature c isPlayer).node_list onlyPlayers =
    if onlyPlayers → isPlayer then swapRemove c (leaf.node_list onlyPlayers)
    else leaf.node_list onlyPlayers := by
  cases onlyPlayers <;> cases isPlayer <;> rfl

theorem mem_addCreature : d ∈ (leaf.addCreature c isPlayer).node_list onlyPlayers ↔
    d ∈ leaf.node_list onlyPlayers ∨ d = c ∧ (onlyPlayers → isPlayer) := by
  rw [node_list_addCreature]
  split
  · next h => rw [List.mem_append, List.mem_singleton, and_iff_left h]
  · next h =>
    rw [or_iff_left]
    exact fun hd => h hd.2

theorem nodup_addCreature (h : (leaf.node_list onlyPlayers).Nodup)
    (hc : c ∉ leaf.node_list onlyPlayers) :
    ((leaf.addCreature c isPlayer).node_list onlyPlayers).Nodup := by
  rw [node_list_addCreature]
  split
  · rw [← List.concat_eq_append]
    exact h.concat hc
  · exact h

section Remove
variable (hc : c ∈ leaf.node_list onlyPlayers ↔ (onlyPlayers → isPlayer))
  (h : (leaf.node_list onlyPlayers).Nodup)
include hc h

theorem mem_removeCreature : d ∈ (leaf.removeCreature c isPlayer).node_list onlyPlayers ↔
    d ∈ leaf.node_list onlyPlayers ∧ d ≠ c := by
  rw [node_list_removeCreature]
  split
  · next hp => exact mem_swapRemove (hc.mpr hp) h
  · next hp =>
    constructor
    · intro hd
      refine ⟨hd, ?_⟩
      rintro rfl
      exact hp (hc.mp hd)
    · exact And.left

theorem nodup_removeCreature :
    ((leaf.removeCreature c isPlayer).node_list onlyPlayers).Nodup := by
  rw [node_list_removeCreature]
  split
  · next hp => exact nodup_swapRemove (hc.mpr hp) h
  · exact h

end Remove

end QTreeLeafNode

namespace Map

variable {isPlayer : ℕ → Bool} {m : Map}

/-- Every creature of the map is listed in the leaf of its position, and nowhere else. -/
structure Settled (isPlayer : ℕ → Bool) (m : Map) : Prop where
  linked : Linked m
  isSome : ∀ {c}, c ∈ m.creatures → (m.getQTNode (m.position c)).isSome
  nodup : ∀ i onlyPlayers, ((m.leaf i).node_list onlyPlayers).Nodup
  mem_iff : ∀ {i onlyPlayers c}, c ∈ (m.leaf i).node_list onlyPlayers ↔
    (c ∈ m.creatures ∧ m.getQTNode (m.position c) = some i) ∧ (onlyPlayers → isPlayer c)

theorem settled_empty : Settled isPlayer {} := by
  constructor
  · exact linked_empty
  · intro c hc
    exact absurd hc (Finset.notMem_empty c)
  · intro i onlyPlayers
    cases onlyPlayers <;> exact List.nodup_nil
  · intro i onlyPlayers c
    simp only [Finset.notMem_empty, false_and, iff_false]
    cases onlyPlayers <;> exact List.not_mem_nil

theorem settled_with_creatures {creatures : Finset ℕ} {position : ℕ → Position} (h : Linked m)
    (hsome : ∀ c ∈ creatures, (m.getQTNode (position c)).isSome)
    (hnodup : ∀ i onlyPlayers, ((m.leaf i).node_list onlyPlayers).Nodup)
    (hmem : ∀ i onlyPlayers c, c ∈ (m.leaf i).node_list onlyPlayers ↔
      (c ∈ creatures ∧ m.getQTNode (position c) = some i) ∧ (onlyPlayers → isPlayer c)) :
    Settled isPlayer { m with creatures := creatures, position := position } :=
  ⟨h.with_creatures _ _, fun hc => hsome _ hc, hnodup,
    fun {i onlyPlayers c} => hmem i onlyPlayers c⟩

namespace Settled

theorem of_extends {m' : Map} (h : Settled isPlayer m) (hlinked : Linked m')
    (hext : Extends m m') : Settled isPlayer m' := by
  have hlist : ∀ i onlyPlayers,
      (m'.leaf i).node_list onlyPlayers = (m.leaf i).node_list onlyPlayers := by
    intro i onlyPlayers
    cases onlyPlayers with
    | false => exact hext.creature_list_eq i
    | true => exact hext.player_list_eq i
  have hget : ∀ {c i}, c ∈ m.creatures →
      (m'.getQTNode (m.position c) = some i ↔ m.getQTNode (m.position c) = some i) := by
    intro c i hc
    obtain ⟨k, hk⟩ := Option.isSome_iff_exists.mp (h.isSome hc)
    have hk' : m'.getQTNode (m.position c) = some k := hext.getLeaf_eq hk
    rw [hk, hk']
  constructor
  · exact hlinked
  · intro c hc
    rw [hext.creatures_eq] at hc
    obtain ⟨k, hk⟩ := Option.isSome_iff_exists.mp (h.isSome hc)
    rw [hext.position_eq, (hget hc).mpr hk]
    rfl
  · intro i onlyPlayers
    rw [hlist]
    exact h.nodup i onlyPlayers
  · intro i onlyPlayers c
    rw [hlist, hext.creatures_eq, hext.position_eq, h.mem_iff]
    exact and_congr_left' (and_congr_right fun hc => (hget hc).symm)

theorem setTile (h : Settled isPlayer m) (a b : UInt16) (z : UInt8) :
    Settled isPlayer (m.setTile a b z) :=
  h.of_extends (h.linked.setTile a b z) (h.linked.extends_setTile a b z)

theorem lt_length (h : Settled isPlayer m) {pos : Position} {i : ℕ}
    (hi : m.getQTNode pos = some i) : i < m.leaves.length := h.linked.lt_length hi

theorem placeCreature (h : Settled isPlayer m) (c : ℕ) (pos : Position) :
    Settled isPlayer (m.placeCreature isPlayer c pos) := by
  unfold Map.placeCreature
  split
  · exact h
  · next leaf hleaf =>
    split
    · exact h
    · next hc =>
      have hlt := h.lt_length hleaf
      have hnot : ∀ i onlyPlayers, c ∉ (m.leaf i).node_list onlyPlayers := fun i onlyPlayers hmem =>
        hc (h.mem_iff.mp hmem).1.1
      apply settled_with_creatures
      · exact h.linked.modifyLeaf hlt (fun _ => rfl) fun _ => rfl
      · intro d hd
        by_cases hdc : d = c
        · subst hdc
          rw [Function.update_self]
          exact Option.isSome_of_eq_some hleaf
        · rw [Function.update_of_ne hdc]
          exact h.isSome ((Finset.mem_insert.mp hd).resolve_left hdc)
      · intro i onlyPlayers
        rw [leaf_modifyLeaf hlt]
        split
        · exact QTreeLeafNode.nodup_addCreature (h.nodup i onlyPlayers) (hnot i onlyPlayers)
        · exact h.nodup i onlyPlayers
      · intro i onlyPlayers d
        rw [getQTNode_modifyLeaf, leaf_modifyLeaf hlt]
        by_cases hdc : d = c
        · subst hdc
          rw [Function.update_self, hleaf]
          split
          · next hi =>
            subst hi
            simp [QTreeLeafNode.mem_addCreature, hnot]
          · next hi =>
            simp [hnot, hi]
        · rw [Function.update_of_ne hdc, Finset.mem_insert, or_iff_right hdc, ← h.mem_iff]
          split
          · rw [QTreeLeafNode.mem_addCreature, or_iff_left (fun heq => hdc heq.1)]
          · rfl

/-- The list of a leaf holds a creature of it when the creature belongs on that list. -/
theorem mem_node_list (h : Settled isPlayer m) {c i : ℕ} (hc : c ∈ m.creatures)
    (hi : m.getQTNode (m.position c) = some i) (onlyPlayers : Bool) :
    c ∈ (m.leaf i).node_list onlyPlayers ↔ (onlyPlayers → isPlayer c) := by
  rw [h.mem_iff, and_iff_right ⟨hc, hi⟩]

theorem removeCreature (h : Settled isPlayer m) (c : ℕ) :
    Settled isPlayer (m.removeCreature isPlayer c) := by
  unfold Map.removeCreature
  split
  · exact h
  · next leaf hleaf =>
    split
    · next hc =>
      have hlt := h.lt_length hleaf
      apply settled_with_creatures
      · exact h.linked.modifyLeaf hlt (fun _ => rfl) fun _ => rfl
      · exact fun d hd => h.isSome (Finset.mem_of_mem_erase hd)
      · intro i onlyPlayers
        rw [leaf_modifyLeaf hlt]
        split
        · next hi =>
          subst hi
          exact QTreeLeafNode.nodup_removeCreature (h.mem_node_list hc hleaf onlyPlayers)
            (h.nodup _ onlyPlayers)
        · exact h.nodup i onlyPlayers
      · intro i onlyPlayers d
        rw [getQTNode_modifyLeaf, leaf_modifyLeaf hlt, Finset.mem_erase]
        split
        · next hi =>
          subst hi
          rw [QTreeLeafNode.mem_removeCreature (h.mem_node_list hc hleaf onlyPlayers)
            (h.nodup _ onlyPlayers), h.mem_iff]
          tauto
        · next hi =>
          have hne : m.getQTNode (m.position d) = some i → d ≠ c := by
            rintro hd rfl
            exact hi (Option.some.inj (hleaf.symm.trans hd))
          rw [h.mem_iff]
          tauto
    · exact h

theorem notMem_of_ne (h : Settled isPlayer m) {c leaf i : ℕ}
    (hleaf : m.getQTNode (m.position c) = some leaf) (hi : leaf ≠ i) (onlyPlayers : Bool) :
    c ∉ (m.leaf i).node_list onlyPlayers := fun hmem =>
  hi (Option.some.inj (hleaf.symm.trans (h.mem_iff.mp hmem).1.2))

section Switch
variable {c leaf new_leaf : ℕ}

/-- The map after a creature left one leaf for another. -/
def switch (isPlayer : ℕ → Bool) (m : Map) (c leaf new_leaf : ℕ) : Map :=
  (m.modifyLeaf leaf (·.removeCreature c (isPlayer c))).modifyLeaf new_leaf
    (·.addCreature c (isPlayer c))

theorem leaf_switch (hlt : leaf < m.leaves.length) (hlt' : new_leaf < m.leaves.length)
    (hne : leaf ≠ new_leaf) (i : ℕ) : (switch isPlayer m c leaf new_leaf).leaf i =
      if leaf = i then (m.leaf i).removeCreature c (isPlayer c)
      else if new_leaf = i then (m.leaf i).addCreature c (isPlayer c)
      else m.leaf i := by
  unfold switch
  rw [leaf_modifyLeaf (by rwa [length_modifyLeaf]), leaf_modifyLeaf hlt]
  by_cases hi : leaf = i
  · subst hi
    rw [if_neg hne.symm, if_pos rfl, if_pos rfl]
  · rw [if_neg hi, if_neg hi]

theorem linked_switch (h : Linked m) (hlt : leaf < m.leaves.length)
    (hlt' : new_leaf < m.leaves.length) : Linked (switch isPlayer m c leaf new_leaf) := by
  have hremoved : Linked (m.modifyLeaf leaf (·.removeCreature c (isPlayer c))) :=
    h.modifyLeaf hlt (fun _ => rfl) fun _ => rfl
  apply hremoved.modifyLeaf
  · rwa [length_modifyLeaf]
  · exact fun _ => rfl
  · exact fun _ => rfl

variable (h : Settled isPlayer m) (hc : c ∈ m.creatures)
  (hleaf : m.getQTNode (m.position c) = some leaf) (hlt' : new_leaf < m.leaves.length)
  (hne : leaf ≠ new_leaf)
include h hc hleaf hlt' hne

theorem nodup_switch (i : ℕ) (onlyPlayers : Bool) :
    (((switch isPlayer m c leaf new_leaf).leaf i).node_list onlyPlayers).Nodup := by
  have hnodup := h.nodup i onlyPlayers
  rw [leaf_switch (h.lt_length hleaf) hlt' hne]
  split
  · next hi =>
    subst hi
    exact QTreeLeafNode.nodup_removeCreature (h.mem_node_list hc hleaf onlyPlayers) hnodup
  · next hi =>
    split
    · exact QTreeLeafNode.nodup_addCreature hnodup (h.notMem_of_ne hleaf hi onlyPlayers)
    · exact hnodup

theorem mem_switch {d i : ℕ} {onlyPlayers : Bool} :
    d ∈ ((switch isPlayer m c leaf new_leaf).leaf i).node_list onlyPlayers ↔
      d ∈ (m.leaf i).node_list onlyPlayers ∧ d ≠ c ∨
        (d = c ∧ new_leaf = i) ∧ (onlyPlayers → isPlayer c) := by
  rw [leaf_switch (h.lt_length hleaf) hlt' hne]
  split
  · next hi =>
    subst hi
    rw [QTreeLeafNode.mem_removeCreature (h.mem_node_list hc hleaf onlyPlayers) (h.nodup _ _)]
    simp [hne.symm]
  · next hi =>
    have hnot := h.notMem_of_ne hleaf hi onlyPlayers
    have hd : d ∈ (m.leaf i).node_list onlyPlayers → d ≠ c := by
      rintro hd rfl
      exact hnot hd
    split
    · next hi' =>
      rw [QTreeLeafNode.mem_addCreature]
      tauto
    · next hi' => tauto

end Switch

theorem moveCreature (h : Settled isPlayer m) (c : ℕ) (newPos : Position) :
    Settled isPlayer (m.moveCreature isPlayer c newPos) := by
  unfold Map.moveCreature
  split
  · next leaf new_leaf hleaf hnew =>
    split
    · next hc =>
      have hlt := h.lt_length hleaf
      have hlt' := h.lt_length hnew
      have hsome : ∀ d ∈ m.creatures,
          (m.getQTNode (Function.update m.position c newPos d)).isSome := by
        intro d hd
        by_cases hdc : d = c
        · subst hdc
          rw [Function.update_self]
          exact Option.isSome_of_eq_some hnew
        · rw [Function.update_of_ne hdc]
          exact h.isSome hd
      dsimp only
      split
      · next hne =>
        apply settled_with_creatures (m := switch isPlayer m c leaf new_leaf)
        · exact linked_switch h.linked hlt hlt'
        · exact hsome
        · exact h.nodup_switch hc hleaf hlt' hne
        · intro i onlyPlayers d
          change _ ↔ (d ∈ m.creatures ∧
            m.getQTNode (Function.update m.position c newPos d) = some i) ∧ _
          rw [h.mem_switch hc hleaf hlt' hne]
          by_cases hdc : d = c
          · subst hdc
            rw [Function.update_self, hnew]
            simp [hc]
          · rw [Function.update_of_ne hdc, h.mem_iff]
            simp [hdc]
      · next heq =>
        have heq : leaf = new_leaf := not_not.mp heq
        subst heq
        apply settled_with_creatures h.linked hsome h.nodup
        intro i onlyPlayers d
        by_cases hdc : d = c
        · subst hdc
          rw [h.mem_iff, Function.update_self, hleaf, hnew]
        · rw [h.mem_iff, Function.update_of_ne hdc]
    · exact h
  · exact h


theorem apply (h : Settled isPlayer m) (op : Op) : Settled isPlayer (m.apply isPlayer op) := by
  cases op with
  | setTile x y z => exact h.setTile x y z
  | placeCreature c pos => exact h.placeCreature c pos
  | moveCreature c newPos => exact h.moveCreature c newPos
  | removeCreature c => exact h.removeCreature c

end Settled

theorem settled_build (isPlayer : ℕ → Bool) (ops : List Op) :
    Settled isPlayer (build isPlayer ops) := by
  have hrun : ∀ m, Settled isPlayer m → Settled isPlayer (ops.foldl (apply isPlayer) m) := by
    induction ops with
    | nil => exact fun _ h => h
    | cons op ops ih => exact fun m h => ih _ (h.apply op)
  exact hrun {} settled_empty

end Map

end OTServBR
