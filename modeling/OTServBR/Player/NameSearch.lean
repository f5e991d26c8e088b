import OTServBR.Lib.Table
import OTServBR.Player.WildcardTree

/-! # The search by prefixes is exact

Every node without children is the end of a name, after any insertions and
removals. Below every node there is therefore a name, and below a node with two
children, or with a child and a break point, there are two.
-/

namespace OTServBR.Wildcard

open RoseTree

namespace WildcardTreeNode

/-- A name leads from a node to a break point. -/
def Has : WildcardTreeNode → List UInt8 → Prop
  | n, [] => n.label.breakpoint = true
  | n, ch :: str => ∃ c, n.getChild ch = some c ∧ Has c str

/-- The children have different characters, and those without children are break points. -/
def Pruned (n : WildcardTreeNode) : Prop :=
  n.All fun _ l => (l.map fun c => c.label.ch).Nodup ∧
    ∀ c ∈ l, c.children = [] → c.label.breakpoint = true

variable {n c : WildcardTreeNode} {ch x : UInt8} {str w : List UInt8}
  {f : WildcardTreeNode → WildcardTreeNode}

@[simp] theorem has_nil : n.Has [] ↔ n.label.breakpoint = true := Iff.rfl

theorem has_cons : n.Has (ch :: str) ↔ ∃ c, n.getChild ch = some c ∧ c.Has str := Iff.rfl

theorem ch_of_getChild (h : n.getChild ch = some c) : c.label.ch = ch := by
  simpa using List.find?_some h

theorem mem_of_getChild (h : n.getChild ch = some c) : c ∈ n.children := List.mem_of_find?_eq_some h

theorem getChild_of_mem (hn : (n.children.map fun c => c.label.ch).Nodup) (hc : c ∈ n.children) :
    n.getChild c.label.ch = some c :=
  Table.find_self (t := ⟨n.children, hn⟩) hc

theorem getChild_updateChild (hf : ∀ c, c.label.ch = ch → (f c).label.ch = ch) :
    (n.updateChild ch f).getChild x = if x = ch then (n.getChild x).map f else n.getChild x := by
  have hkey : ∀ c : WildcardTreeNode, (if c.label.ch = ch then f c else c).label.ch = c.label.ch := by
    intro c
    split
    · next hc => rw [hf c hc, hc]
    · rfl
  have hfind : (n.updateChild ch f).getChild x =
      (n.getChild x).map fun c => if c.label.ch = ch then f c else c := by
    rw [getChild, updateChild, children_node, List.find?_map, getChild]
    congr 2
    funext c
    exact decide_eq_decide.mpr (by rw [hkey])
  rw [hfind]
  cases hc : n.getChild x with
  | none => rw [Option.map_none, Option.map_none, ite_self]
  | some c =>
    have hch := ch_of_getChild hc
    rw [Option.map_some, Option.map_some, hch]
    split <;> rfl

theorem getChild_eraseChild : (n.eraseChild ch).getChild x =
    if x = ch then none else n.getChild x := by
  rw [getChild, eraseChild, children_node, List.find?_filter]
  split
  · next hx =>
    subst hx
    refine List.find?_eq_none.mpr fun c _ => ?_
    simp
  · next hx =>
    rw [getChild]
    congr 1
    funext c
    by_cases hc : c.label.ch = x
    · simp [hc, hx]
    · simp [hc]

theorem setBreakpoint_self : n.setBreakpoint n.label.breakpoint = n := by
  cases n
  rfl

theorem getChild_addChild {breakp : Bool} : (n.addChild ch breakp).getChild x =
    if x = ch then
      some (match n.getChild ch with
        | some c => c.setBreakpoint (c.label.breakpoint || breakp)
        | none => .node ⟨ch, breakp⟩ [])
    else n.getChild x := by
  cases hc : n.getChild ch with
  | some c =>
    rw [addChild, hc]
    dsimp only
    split
    · next hbreak =>
      obtain ⟨rfl, -⟩ := Bool.and_eq_true_iff.mp hbreak
      have hf : ∀ c : WildcardTreeNode, c.label.ch = ch → (c.setBreakpoint true).label.ch = ch :=
        fun _ h => h
      rw [getChild_updateChild hf]
      split
      · next hx => rw [hx, hc, Option.map_some, Bool.or_true]
      · rfl
    · next hbreak =>
      have hsame : (c.label.breakpoint || breakp) = c.label.breakpoint := by
        cases hb : c.label.breakpoint <;> simp_all
      split
      · next hx => rw [hx, hc, hsame, setBreakpoint_self]
      · rfl
  | none =>
    rw [addChild, hc]
    dsimp only
    rw [getChild, children_node, List.find?_append, ← getChild]
    split
    · next hx =>
      rw [hx, hc]
      simp
    · next hx =>
      have hne : ch ≠ x := Ne.symm hx
      simp [hne]

/-! ## What the operations do to the names -/

theorem has_leaf {m : Mark} : Has (.node m []) w ↔ w = [] ∧ m.breakpoint = true := by
  cases w with
  | nil => simp
  | cons x w => simp [has_cons, getChild]

theorem has_setBreakpoint {breakpoint : Bool} : (n.setBreakpoint breakpoint).Has w ↔
    if w = [] then breakpoint = true else n.Has w := by
  cases w with
  | nil => exact Iff.rfl
  | cons x w => exact Iff.rfl

@[simp] theorem label_updateChild : (n.updateChild ch f).label = n.label := rfl

@[simp] theorem label_eraseChild : (n.eraseChild ch).label = n.label := rfl

@[simp] theorem label_addChild {breakp : Bool} : (n.addChild ch breakp).label = n.label := by
  unfold addChild
  split
  · split <;> rfl
  · rfl

theorem has_addChild {breakp : Bool} : (n.addChild ch breakp).Has w ↔
    n.Has w ∨ w = [ch] ∧ breakp = true := by
  cases w with
  | nil => simp
  | cons x w =>
    rw [has_cons, has_cons, getChild_addChild, List.cons.injEq]
    split
    · next hx =>
      subst hx
      cases hc : n.getChild x with
      | some c =>
        simp only [Option.some.injEq, exists_eq_left', has_setBreakpoint, true_and]
        cases w with
        | nil => simp
        | cons y w => simp
      | none => simp [has_leaf]
    · next hx => simp [hx]

/-- The child that an insertion goes on with. -/
theorem exists_getChild_addChild (n : WildcardTreeNode) (ch : UInt8) :
    ∃ c, (n.addChild ch false).getChild ch = some c ∧ ∀ w, c.Has w ↔ n.Has (ch :: w) := by
  have hsome : ∃ c, (n.addChild ch false).getChild ch = some c := by
    rw [getChild_addChild, if_pos rfl]
    exact ⟨_, rfl⟩
  obtain ⟨c, hc⟩ := hsome
  refine ⟨c, hc, fun w => ?_⟩
  have hadd : (n.addChild ch false).Has (ch :: w) ↔ n.Has (ch :: w) := by
    rw [has_addChild]
    simp
  rw [← hadd, has_cons, hc]
  simp

theorem ch_insert : (insert str n).label.ch = n.label.ch := by
  unfold insert
  split
  · rfl
  · rw [label_addChild]
  · rw [label_updateChild, label_addChild]

theorem insert_cons_cons {y : UInt8} : insert (ch :: y :: str) n =
    (n.addChild ch false).updateChild ch (insert (y :: str)) := rfl

theorem has_insert (hne : str ≠ []) : (insert str n).Has w ↔ n.Has w ∨ w = str := by
  induction str generalizing n w with
  | nil => exact absurd rfl hne
  | cons ch str ih =>
    cases str with
    | nil =>
      rw [insert, has_addChild]
      simp
    | cons y str =>
      rw [insert_cons_cons]
      cases w with
      | nil => simp
      | cons x w =>
        have hch : ∀ c : WildcardTreeNode, c.label.ch = ch →
            (insert (y :: str) c).label.ch = ch := fun c hc => ch_insert.trans hc
        rw [has_cons, getChild_updateChild hch]
        split
        · next hx =>
          subst hx
          obtain ⟨c, hc, hhas⟩ := exists_getChild_addChild n x
          rw [hc, Option.map_some]
          simp only [Option.some.injEq, exists_eq_left', ih (List.cons_ne_nil y str), hhas,
            List.cons.injEq, true_and]
        · next hx =>
          rw [← has_cons, has_addChild]
          simp [hx]

theorem ch_remove? (h : remove? str n = some c) : c.label.ch = n.label.ch := by
  unfold remove? at h
  split at h
  · cases h
    rfl
  · split at h
    · cases h
    · split at h
      · cases h
      · split at h
        · cases h
          rfl
        · cases h
          rfl

/-- A node without children that is no break point. -/
theorem not_has_of_bare (hc : c.children = []) (hb : c.label.breakpoint = false) : ¬c.Has w := by
  obtain ⟨m, l⟩ := c
  rw [children_node] at hc
  subst hc
  rw [has_leaf]
  rintro ⟨-, htrue⟩
  exact Bool.false_ne_true (hb.symm.trans htrue)

theorem has_remove?_none (h : remove? str n = none) : ¬n.Has str := by
  induction str generalizing n with
  | nil => cases h
  | cons ch str ih =>
    rw [has_cons]
    rintro ⟨c, hc, hhas⟩
    rw [remove?, hc] at h
    dsimp only at h
    split at h
    · next hnone => exact ih hnone hhas
    · split at h <;> cases h

theorem has_remove?_some {n' : WildcardTreeNode} (h : remove? str n = some n') :
    n'.Has w ↔ n.Has w ∧ w ≠ str := by
  induction str generalizing n n' w with
  | nil =>
    cases h
    rw [has_setBreakpoint]
    by_cases hw : w = [] <;> simp [hw]
  | cons ch str ih =>
    rw [remove?] at h
    split at h
    · cases h
    · next c hc =>
      split at h
      · cases h
      · next c' hc' =>
        have hch : c'.label.ch = ch := (ch_remove? hc').trans (ch_of_getChild hc)
        split at h
        · cases h
          cases w with
          | nil => simp
          | cons x w =>
            rw [has_cons, has_cons, getChild_updateChild fun _ _ => hch]
            split
            · next hx =>
              subst hx
              rw [hc, Option.map_some]
              simp [ih hc']
            · next hx => simp [hx]
        · next hbare =>
          cases h
          rw [Bool.not_eq_true, Bool.or_eq_false_iff, Bool.not_eq_false', List.isEmpty_iff] at hbare
          cases w with
          | nil => simp
          | cons x w =>
            rw [has_cons, has_cons, getChild_eraseChild]
            split
            · next hx =>
              subst hx
              have hnot := not_has_of_bare (w := w) hbare.1 hbare.2
              rw [ih hc'] at hnot
              rw [hc]
              simpa using hnot
            · next hx => simp [hx]

theorem has_remove : (remove str n).Has w ↔ n.Has w ∧ w ≠ str := by
  rw [remove]
  cases h : remove? str n with
  | some n' => exact has_remove?_some h
  | none =>
    have hnot := has_remove?_none h
    constructor
    · intro hw
      exact ⟨hw, fun heq => hnot (heq ▸ hw)⟩
    · exact And.left

/-! ## Every leaf is the end of a name -/

/-- A node below the root: it ends a name or has children. -/
structure Sound (c : WildcardTreeNode) : Prop where
  leaf : c.children = [] → c.label.breakpoint = true
  pruned : c.Pruned

theorem pruned_iff : n.Pruned ↔
    (n.children.map fun c => c.label.ch).Nodup ∧ ∀ c ∈ n.children, Sound c := by
  obtain ⟨m, l⟩ := n
  rw [Pruned, all_node_iff, children_node, and_assoc]
  refine and_congr_right fun _ => ?_
  constructor
  · rintro ⟨hleaf, hall⟩ c hc
    exact ⟨hleaf c hc, hall c hc⟩
  · intro h
    exact ⟨fun c hc => (h c hc).leaf, fun c hc => (h c hc).pruned⟩

theorem pruned_leaf {m : Mark} : Pruned (.node m []) :=
  pruned_iff.mpr ⟨List.nodup_nil, fun _ hc => absurd hc List.not_mem_nil⟩

theorem Pruned.setBreakpoint {breakpoint : Bool} (hn : n.Pruned) :
    (n.setBreakpoint breakpoint).Pruned := by
  rw [pruned_iff] at hn ⊢
  exact hn

theorem pruned_updateChild (hkeys : (n.children.map fun c => c.label.ch).Nodup)
    (hold : ∀ c ∈ n.children, c.label.ch ≠ ch → Sound c)
    (hnew : ∀ c ∈ n.children, c.label.ch = ch → (f c).label.ch = ch ∧ Sound (f c)) :
    (n.updateChild ch f).Pruned := by
  have hmap : (n.updateChild ch f).children.map (fun c => c.label.ch) =
      n.children.map fun c => c.label.ch := by
    rw [updateChild, children_node, List.map_map]
    refine List.map_congr_left fun c hc => ?_
    rw [Function.comp_apply]
    split
    · next hch => rw [(hnew c hc hch).1, hch]
    · rfl
  refine pruned_iff.mpr ⟨by rwa [hmap], fun c hc => ?_⟩
  obtain ⟨c, hmem, rfl⟩ := List.mem_map.mp hc
  split
  · next hch => exact (hnew c hmem hch).2
  · next hch => exact hold c hmem hch

theorem Pruned.eraseChild (hn : n.Pruned) : (n.eraseChild ch).Pruned := by
  obtain ⟨hkeys, hsound⟩ := pruned_iff.mp hn
  refine pruned_iff.mpr ⟨hkeys.sublist (List.filter_sublist.map _), fun c hc => ?_⟩
  exact hsound c (List.mem_filter.mp hc).1

/-- The children after one was added: old ones, and those at the character. -/
theorem children_addChild (hn : n.Pruned) (ch : UInt8) (breakp : Bool) :
    ((n.addChild ch breakp).children.map fun c => c.label.ch).Nodup ∧
      ∀ c ∈ (n.addChild ch breakp).children, c ∈ n.children ∨
        c.label.ch = ch ∧ Pruned c ∧ (breakp = true → c.label.breakpoint = true) := by
  obtain ⟨hkeys, hsound⟩ := pruned_iff.mp hn
  unfold addChild
  split
  · split
    · next hbreak =>
      constructor
      · have hmap : (n.updateChild ch fun c => setBreakpoint c true).children.map
            (fun c => c.label.ch) = n.children.map fun c => c.label.ch := by
          rw [updateChild, children_node, List.map_map]
          refine List.map_congr_left fun c _ => ?_
          rw [Function.comp_apply]
          split <;> rfl
        rwa [hmap]
      · intro c hc
        obtain ⟨c, hmem, rfl⟩ := List.mem_map.mp hc
        split
        · next hch => exact Or.inr ⟨hch, (hsound c hmem).pruned.setBreakpoint, fun _ => rfl⟩
        · exact Or.inl hmem
    · exact ⟨hkeys, fun c hc => Or.inl hc⟩
  · next hnone =>
    constructor
    · rw [children_node, List.map_append, List.nodup_append]
      refine ⟨hkeys, List.nodup_singleton _, ?_⟩
      intro x hx y hy
      obtain ⟨c, hc, rfl⟩ := List.mem_map.mp hx
      obtain rfl := List.mem_singleton.mp hy
      simpa using List.find?_eq_none.mp hnone c hc
    · intro c hc
      rcases List.mem_append.mp hc with hc | hc
      · exact Or.inl hc
      · rw [List.mem_singleton.mp hc]
        exact Or.inr ⟨rfl, pruned_leaf, id⟩

theorem children_addChild_ne_nil {breakp : Bool} : (n.addChild ch breakp).children ≠ [] := by
  have hsome : ∃ c, (n.addChild ch breakp).getChild ch = some c := by
    rw [getChild_addChild, if_pos rfl]
    exact ⟨_, rfl⟩
  obtain ⟨c, hc⟩ := hsome
  exact List.ne_nil_of_mem (mem_of_getChild hc)

theorem children_insert_ne_nil (hne : str ≠ []) : (insert str n).children ≠ [] := by
  match str with
  | [] => exact absurd rfl hne
  | [_] => exact children_addChild_ne_nil
  | _ :: _ :: _ => exact fun h => children_addChild_ne_nil (List.map_eq_nil_iff.mp h)

theorem Pruned.insert (hn : n.Pruned) (hne : str ≠ []) : (insert str n).Pruned := by
  induction str generalizing n with
  | nil => exact absurd rfl hne
  | cons ch str ih =>
    have hsound := (pruned_iff.mp hn).2
    cases str with
    | nil =>
      obtain ⟨hkeys, hmem⟩ := children_addChild hn ch true
      refine pruned_iff.mpr ⟨hkeys, fun c hc => ?_⟩
      rcases hmem c hc with hold | ⟨-, hpruned, hbreak⟩
      · exact hsound c hold
      · exact ⟨fun _ => hbreak rfl, hpruned⟩
    | cons y str =>
      obtain ⟨hkeys, hmem⟩ := children_addChild hn ch false
      rw [insert_cons_cons]
      refine pruned_updateChild hkeys ?_ ?_
      · intro c hc hch
        exact hsound c ((hmem c hc).resolve_right fun h => hch h.1)
      · intro c hc hch
        have hpruned : Pruned c := by
          rcases hmem c hc with hold | ⟨-, hpruned, -⟩
          · exact (hsound c hold).pruned
          · exact hpruned
        refine ⟨ch_insert.trans hch, ?_, ih hpruned (List.cons_ne_nil y str)⟩
        exact fun h => absurd h (children_insert_ne_nil (List.cons_ne_nil y str))

theorem Pruned.remove? (hn : n.Pruned) {n' : WildcardTreeNode} (h : remove? str n = some n') :
    n'.Pruned := by
  induction str generalizing n n' with
  | nil =>
    cases h
    exact hn.setBreakpoint
  | cons ch str ih =>
    obtain ⟨hkeys, hsound⟩ := pruned_iff.mp hn
    rw [WildcardTreeNode.remove?] at h
    split at h
    · cases h
    · next c hc =>
      split at h
      · cases h
      · next c' hc' =>
        have hpruned' := ih (hsound c (mem_of_getChild hc)).pruned hc'
        split at h
        · next hstays =>
          cases h
          refine pruned_updateChild hkeys (fun c hc _ => hsound c hc) fun _ _ _ => ?_
          refine ⟨(ch_remove? hc').trans (ch_of_getChild hc), fun hnil => ?_, hpruned'⟩
          simpa [hnil] using hstays
        · cases h
          exact hn.eraseChild

theorem Pruned.remove (hn : n.Pruned) : (remove str n).Pruned := by
  rw [WildcardTreeNode.remove]
  cases h : WildcardTreeNode.remove? str n with
  | some n' => exact hn.remove? h
  | none => exact hn

/-! ## The search -/

theorem Sound.exists_has (hc : c.Sound) : ∃ w, c.Has w := by
  induction c using RoseTree.induct with
  | node m l ih =>
    cases l with
    | nil => exact ⟨[], hc.leaf rfl⟩
    | cons c l =>
      obtain ⟨hkeys, hsound⟩ := pruned_iff.mp hc.pruned
      obtain ⟨w, hw⟩ := ih c List.mem_cons_self (hsound c List.mem_cons_self)
      exact ⟨c.label.ch :: w, c, getChild_of_mem hkeys List.mem_cons_self, hw⟩

/-- What the loop over only children finds: the only name, or that there are two. -/
theorem Sound.follow (hn : n.Sound) (result : List UInt8) :
    (∃ w, n.follow result = (.NOERROR, result ++ w) ∧ n.Has w ∧ ∀ v, n.Has v → v = w) ∨
      (n.follow result).1 = .NAMEISTOOAMBIGUOUS ∧ ∃ v w, v ≠ w ∧ n.Has v ∧ n.Has w := by
  induction n using RoseTree.induct generalizing result with
  | node m l ih =>
    obtain ⟨hkeys, hsound⟩ := pruned_iff.mp hn.pruned
    match l with
    | [] =>
      refine Or.inl ⟨[], ?_, hn.leaf rfl, fun v hv => (has_leaf.mp hv).1⟩
      rw [WildcardTreeNode.follow, List.append_nil]
    | [c] =>
      have hget := getChild_of_mem hkeys List.mem_cons_self
      rw [WildcardTreeNode.follow]
      split
      · next hbreak =>
        obtain ⟨w, hw⟩ := (hsound c List.mem_cons_self).exists_has
        exact Or.inr ⟨rfl, [], c.label.ch :: w, (List.cons_ne_nil _ _).symm, hbreak, c, hget, hw⟩
      · next hbreak =>
        have hcons : ∀ {v}, Has (.node m [c]) v → ∃ w, v = c.label.ch :: w ∧ Has c w := by
          intro v hv
          cases v with
          | nil => exact absurd hv hbreak
          | cons x w =>
            obtain ⟨d, hd, hw⟩ := hv
            have hx := ch_of_getChild hd
            rw [List.mem_singleton.mp (mem_of_getChild hd)] at hx hw
            exact ⟨w, by rw [hx], hw⟩
        rcases ih c List.mem_cons_self (hsound c List.mem_cons_self) (result ++ [c.label.ch]) with
          ⟨w, hfollow, hw, honly⟩ | ⟨hfollow, v, w, hne, hv, hw⟩
        · refine Or.inl ⟨c.label.ch :: w, ?_, ⟨c, hget, hw⟩, fun v hv => ?_⟩
          · rw [hfollow, List.append_assoc]
            rfl
          · obtain ⟨u, rfl, hu⟩ := hcons hv
            rw [honly u hu]
        · refine Or.inr ⟨hfollow, c.label.ch :: v, c.label.ch :: w, ?_, ⟨c, hget, hv⟩, c, hget, hw⟩
          exact fun h => hne (List.cons.inj h).2
    | c :: d :: l =>
      obtain ⟨v, hv⟩ := (hsound c List.mem_cons_self).exists_has
      have hd : d ∈ c :: d :: l := List.mem_cons_of_mem _ List.mem_cons_self
      obtain ⟨w, hw⟩ := (hsound d hd).exists_has
      refine Or.inr ⟨rfl, c.label.ch :: v, d.label.ch :: w, ?_,
        ⟨c, getChild_of_mem hkeys List.mem_cons_self, hv⟩, d, getChild_of_mem hkeys hd, hw⟩
      intro h
      have hne := (List.nodup_cons.mp hkeys).1
      exact hne (List.mem_map.mpr ⟨d, List.mem_cons_self, ((List.cons.inj h).1).symm⟩)

theorem has_descend {query : List UInt8} (h : n.descend query = some c) :
    c.Has w ↔ n.Has (query ++ w) := by
  induction query generalizing n with
  | nil =>
    cases h
    rfl
  | cons pos query ih =>
    rw [descend_cons] at h
    split at h
    · cases h
    · next d hd =>
      rw [ih h, List.cons_append, has_cons, hd]
      simp

theorem not_has_of_descend {query : List UInt8} (h : n.descend query = none) :
    ¬n.Has (query ++ w) := by
  induction query generalizing n with
  | nil => cases h
  | cons pos query ih =>
    rw [descend_cons] at h
    rw [List.cons_append, has_cons]
    rintro ⟨d, hd, hw⟩
    rw [hd] at h
    exact ih h hw

theorem Pruned.sound_descend {query : List UInt8} (hn : n.Pruned) (hne : query ≠ [])
    (h : n.descend query = some c) : c.Sound := by
  induction query generalizing n with
  | nil => exact absurd rfl hne
  | cons pos query ih =>
    rw [descend_cons] at h
    split at h
    · cases h
    · next d hd =>
      have hd' : Sound d := (pruned_iff.mp hn).2 d (mem_of_getChild hd)
      cases query with
      | nil =>
        cases h
        exact hd'
      | cons x query => exact ih hd'.pruned (List.cons_ne_nil x query) h

end WildcardTreeNode

/-! ## Runs -/

/-- A name has a character. -/
abbrev Name := { str : List UInt8 // str ≠ [] }

inductive Change
  | insert (name : Name)
  | remove (name : Name)

def Change.apply (n : WildcardTreeNode) : Change → WildcardTreeNode
  | insert name => WildcardTreeNode.insert name.1 n
  | remove name => WildcardTreeNode.remove name.1 n

/-- What a change does to the set of names. -/
def Change.applySet (names : Set Name) : Change → Set Name
  | insert name => Insert.insert name names
  | remove name => names \ {name}

/-- The tree spells the set of names. -/
structure Spells (n : WildcardTreeNode) (names : Set Name) : Prop where
  pruned : n.Pruned
  has_iff : ∀ w, n.Has w ↔ ∃ name ∈ names, name.1 = w

theorem spells_root : Spells WildcardTreeNode.root ∅ := by
  refine ⟨WildcardTreeNode.pruned_leaf, fun w => ?_⟩
  rw [WildcardTreeNode.root, WildcardTreeNode.has_leaf]
  simp

theorem Spells.apply {n : WildcardTreeNode} {names : Set Name} (h : Spells n names)
    (change : Change) : Spells (change.apply n) (change.applySet names) := by
  cases change with
  | insert name =>
    refine ⟨h.pruned.insert name.2, fun w => ?_⟩
    rw [Change.apply, WildcardTreeNode.has_insert name.2, h.has_iff, Change.applySet]
    simp [or_comm, eq_comm]
  | remove name =>
    refine ⟨h.pruned.remove, fun w => ?_⟩
    rw [Change.apply, WildcardTreeNode.has_remove, h.has_iff, Change.applySet]
    constructor
    · rintro ⟨⟨name', hmem, rfl⟩, hne⟩
      exact ⟨name', ⟨hmem, fun heq => hne (congrArg Subtype.val heq)⟩, rfl⟩
    · rintro ⟨name', ⟨hmem, hne⟩, rfl⟩
      exact ⟨⟨name', hmem, rfl⟩, fun heq => hne (Subtype.ext heq)⟩

theorem spells_run (changes : List Change) : Spells
    (changes.foldl Change.apply WildcardTreeNode.root) (changes.foldl Change.applySet ∅) := by
  induction changes using List.reverseRecOn with
  | nil => exact spells_root
  | append_singleton changes change ih =>
    rw [List.foldl_append, List.foldl_append]
    exact ih.apply change

/-- The names that begin with a query. -/
def beginning (names : Set Name) (query : Name) : Set Name :=
  { name ∈ names | query.1 <+: name.1 }

theorem Spells.mem_beginning {n : WildcardTreeNode} {names : Set Name} (h : Spells n names)
    {query name : Name} : name ∈ beginning names query ↔
      ∃ w, name.1 = query.1 ++ w ∧ n.Has (query.1 ++ w) := by
  constructor
  · rintro ⟨hmem, w, hw⟩
    exact ⟨w, hw.symm, (h.has_iff _).mpr ⟨name, hmem, hw.symm⟩⟩
  · rintro ⟨w, hname, hhas⟩
    obtain ⟨name', hmem, hname'⟩ := (h.has_iff _).mp hhas
    obtain rfl : name' = name := Subtype.ext (hname'.trans hname.symm)
    exact ⟨hmem, w, hname.symm⟩

/-- What a search finds, by the names that begin with the query. -/
theorem Spells.findOne_cases {n : WildcardTreeNode} {names : Set Name} (h : Spells n names)
    (query : Name) :
    (n.findOne query.1).1 = .PLAYERWITHTHISNAMEISNOTONLINE ∧ beginning names query = ∅ ∨
      (∃ name, n.findOne query.1 = (.NOERROR, name.1) ∧ beginning names query = {name}) ∨
      (n.findOne query.1).1 = .NAMEISTOOAMBIGUOUS ∧ (beginning names query).Nontrivial := by
  have hname : ∀ w, query.1 ++ w ≠ [] := fun w heq => query.2 (List.append_eq_nil_iff.mp heq).1
  unfold WildcardTreeNode.findOne
  split
  · next hdescend =>
    refine Or.inl ⟨rfl, Set.eq_empty_of_forall_notMem fun name hmem => ?_⟩
    obtain ⟨w, -, hhas⟩ := h.mem_beginning.mp hmem
    exact WildcardTreeNode.not_has_of_descend hdescend hhas
  · next c hdescend =>
    have hc := h.pruned.sound_descend query.2 hdescend
    rcases hc.follow query.1 with ⟨w, hfollow, hw, honly⟩ | ⟨hfollow, v, w, hne, hv, hw⟩
    · refine Or.inr (Or.inl ⟨⟨query.1 ++ w, hname w⟩, hfollow, ?_⟩)
      ext name
      rw [h.mem_beginning, Set.mem_singleton_iff]
      constructor
      · rintro ⟨v, hv, hhas⟩
        rw [honly v ((WildcardTreeNode.has_descend hdescend).mpr hhas)] at hv
        exact Subtype.ext hv
      · rintro rfl
        exact ⟨w, rfl, (WildcardTreeNode.has_descend hdescend).mp hw⟩
    · refine Or.inr (Or.inr ⟨hfollow, ⟨query.1 ++ v, hname v⟩, ?_, ⟨query.1 ++ w, hname w⟩, ?_, ?_⟩)
      · exact h.mem_beginning.mpr ⟨v, rfl, (WildcardTreeNode.has_descend hdescend).mp hv⟩
      · exact h.mem_beginning.mpr ⟨w, rfl, (WildcardTreeNode.has_descend hdescend).mp hw⟩
      · exact fun heq => hne (List.append_cancel_left (congrArg Subtype.val heq))

/-- After any insertions and removals a search finds the only name that begins with its query,
and says whether there are several or none. -/
theorem findOne_exact (changes : List Change) (query : Name) :
    let n := changes.foldl Change.apply WildcardTreeNode.root
    let found := beginning (changes.foldl Change.applySet ∅) query
    (∀ r, n.findOne query.1 = (.NOERROR, r) ↔ ∃ name : Name, name.1 = r ∧ found = {name}) ∧
      ((n.findOne query.1).1 = .NAMEISTOOAMBIGUOUS ↔ found.Nontrivial) ∧
      ((n.findOne query.1).1 = .PLAYERWITHTHISNAMEISNOTONLINE ↔ found = ∅) := by
  intro n found
  rcases (spells_run changes).findOne_cases query with ⟨hfind, hfound⟩ | ⟨name, hfind, hfound⟩ |
    ⟨hfind, hfound⟩
  · have hfound' : found = ∅ := hfound
    refine ⟨fun r => ⟨fun h => ?_, ?_⟩, ⟨fun h => ?_, fun h => ?_⟩, fun _ => hfound', fun _ => hfind⟩
    · rw [h] at hfind
      cases hfind
    · rintro ⟨name, -, hname⟩
      exact absurd (hname.symm.trans hfound') (Set.singleton_ne_empty name)
    · rw [hfind] at h
      cases h
    · exact absurd hfound' h.nonempty.ne_empty
  · have hfound' : found = {name} := hfound
    have hfind' : n.findOne query.1 = (.NOERROR, name.1) := hfind
    rw [hfind', hfound']
    refine ⟨fun r => ⟨fun h => ⟨name, (Prod.mk.inj h).2, rfl⟩, ?_⟩, ⟨fun h => ?_, fun h => ?_⟩,
      fun h => ?_, fun h => absurd h (Set.singleton_ne_empty name)⟩
    · rintro ⟨name', rfl, hname⟩
      rw [Set.singleton_injective hname]
    · cases h
    · exact absurd h Set.not_nontrivial_singleton
    · cases h
  · have hfound' : found.Nontrivial := hfound
    refine ⟨fun r => ⟨fun h => ?_, ?_⟩, ⟨fun _ => hfound', fun _ => hfind⟩, fun h => ?_, fun h => ?_⟩
    · rw [h] at hfind
      cases hfind
    · rintro ⟨name, -, hname⟩
      rw [hname] at hfound'
      exact absurd hfound' Set.not_nontrivial_singleton
    · rw [hfind] at h
      cases h
    · exact absurd h hfound'.nonempty.ne_empty

end OTServBR.Wildcard
