import OTServBR.Player.Inventory

/-! # Removing items of a type

The iteration over a container visits everything inside it once, so the count
is that of all things. The search skips what an equipped match holds, and what
it collects is removed together with what lies inside.
-/

namespace OTServBR.Carried

open RoseTree

/-! ## Iteration -/

theorem ThingTree.closed_children {t c : ThingTree} (h : t.Closed) (hc : c ∈ t.children) :
    c.Closed := by
  obtain ⟨_, hl⟩ := h
  exact hl c hc

theorem ThingTree.children_of_not_container {t : ThingTree} (h : t.Closed)
    (ht : t.label.item.cls.isContainer = false) : t.children = [] := by
  obtain ⟨ha, _⟩ := h
  exact ha ht

namespace ContainerIterator

variable {it : ContainerIterator} {n : ℕ}

/-- What a loop has still to go through. -/
def pending (it : ContainerIterator) : List Thing :=
  labelsList it.cur ++ labelsList (it.overList.tail.flatMap children)

structure Ready (it : ContainerIterator) : Prop where
  overList : it.overList = [] ↔ it.cur = []
  queue : ∀ t ∈ it.overList.tail, t.children ≠ []
  closed : ∀ t ∈ it.cur ++ it.overList.tail, ThingTree.Closed t

theorem Ready.hasNext (h : it.Ready) : it.hasNext = true ↔ it.cur ≠ [] := by
  rw [ContainerIterator.hasNext, ne_eq, ← h.overList]
  simp

/-- The queue behind the container at hand, after one of its items. -/
def enqueue (overList : List ThingTree) (i : ThingTree) : List ThingTree :=
  if i.label.item.cls.isContainer && !i.children.isEmpty then overList ++ [i] else overList

theorem labelsList_enqueue {overList : List ThingTree} {i : ThingTree} (hi : i.Closed) :
    labelsList ((enqueue overList i).flatMap children) =
      labelsList (overList.flatMap children) ++ labelsList i.children := by
  unfold enqueue
  split
  · rw [List.flatMap_append, labelsList_append]
    simp
  · next hnot =>
    have hnil : i.children = [] := by
      by_contra hne
      have hcontainer : i.label.item.cls.isContainer = false := by
        rw [← Bool.not_eq_true]
        intro hc
        exact hnot (by simp [hc, hne])
      exact hne (ThingTree.children_of_not_container hi hcontainer)
    rw [hnil, labelsList, List.append_nil]

theorem mem_enqueue {overList : List ThingTree} {i t : ThingTree} (ht : t ∈ enqueue overList i) :
    t ∈ overList ∨ t = i ∧ i.children ≠ [] := by
  unfold enqueue at ht
  split at ht
  · next hi =>
    rcases List.mem_append.mp ht with ht | ht
    · exact Or.inl ht
    · refine Or.inr ⟨List.mem_singleton.mp ht, ?_⟩
      rintro hnil
      simp [hnil] at hi
  · exact Or.inl ht

/-- The iterator goes on in the same container, or in the next one of the queue. -/
theorem advance_eq {o i : ThingTree} {os cur : List ThingTree} (hover : it.overList = o :: os)
    (hcur : it.cur = i :: cur) :
    it.advance =
      if cur = [] then
        match enqueue os i with
        | [] => { overList := [], cur := [] }
        | c :: overList => { overList := c :: overList, cur := c.children }
      else { overList := o :: enqueue os i, cur := cur } := by
  have hqueue : (if i.label.item.cls.isContainer && !i.children.isEmpty then it.overList ++ [i]
      else it.overList) = o :: enqueue os i := by
    rw [hover]
    unfold enqueue
    split <;> rfl
  unfold advance
  rw [hcur]
  dsimp only
  rw [hqueue]
  by_cases hnil : cur = []
  · rw [if_pos (List.isEmpty_iff.mpr hnil), if_pos hnil]
    rfl
  · rw [if_neg (mt List.isEmpty_iff.mp hnil), if_neg hnil]

theorem Ready.advance {i : ThingTree} {cur : List ThingTree} (h : it.Ready)
    (hcur : it.cur = i :: cur) :
    it.advance.Ready ∧ it.pending.Perm (i.label :: it.advance.pending) := by
  obtain ⟨o, os, hover⟩ : ∃ o os, it.overList = o :: os := by
    refine List.exists_cons_of_ne_nil fun hnil => ?_
    rw [h.overList.mp hnil] at hcur
    cases hcur
  have hclosed : ∀ t ∈ i :: cur ++ os, ThingTree.Closed t := by
    have := h.closed
    rwa [hcur, hover] at this
  have hi : i.Closed := hclosed i (by simp)
  have hqueue : ∀ t ∈ enqueue os i, t.children ≠ [] ∧ ThingTree.Closed t := by
    intro t ht
    rcases mem_enqueue ht with ht | ⟨rfl, hne⟩
    · refine ⟨h.queue t ?_, hclosed t (by simp [ht])⟩
      rwa [hover]
    · exact ⟨hne, hi⟩
  have hrest : it.pending.Perm
      (i.label :: (labelsList cur ++ labelsList ((enqueue os i).flatMap children))) := by
    rw [pending, hcur, hover, labelsList_enqueue hi, labelsList]
    obtain ⟨thing, itemlist⟩ := i
    rw [labels, List.tail_cons, label_node, children_node, List.cons_append, List.cons_append]
    refine List.Perm.cons _ ?_
    rw [List.append_assoc, ← List.append_assoc (labelsList cur)]
    exact List.perm_append_comm
  rw [advance_eq hover hcur]
  split
  · next hnil =>
    subst hnil
    split
    · next hempty =>
      rw [hempty] at hrest
      exact ⟨⟨Iff.rfl, by rintro _ ⟨⟩, by rintro _ ⟨⟩⟩, hrest⟩
    · next c overList hnext =>
      rw [hnext] at hrest hqueue
      have hc := hqueue c (by simp)
      refine ⟨⟨?_, fun t ht => (hqueue t (List.mem_cons_of_mem _ ht)).1, fun t ht => ?_⟩, ?_⟩
      · exact iff_of_false (by rintro ⟨⟩) hc.1
      · rcases List.mem_append.mp ht with ht | ht
        · exact ThingTree.closed_children hc.2 ht
        · exact (hqueue t (List.mem_cons_of_mem _ ht)).2
      · rw [labelsList, List.nil_append, List.flatMap_cons, labelsList_append] at hrest
        exact hrest
  · next hne =>
    refine ⟨⟨iff_of_false (by rintro ⟨⟩) hne, fun t ht => (hqueue t ht).1, fun t ht => ?_⟩, hrest⟩
    rcases List.mem_append.mp ht with ht | ht
    · exact hclosed t (by simp [ht])
    · exact (hqueue t ht).2

/-- With a round for each thing that is pending, a loop visits each of them once. -/
theorem Ready.perm_loop (h : it.Ready) (hn : it.pending.length ≤ n) :
    (it.loop n).Perm it.pending := by
  induction n generalizing it with
  | zero =>
    rw [List.eq_nil_of_length_eq_zero (Nat.le_zero.mp hn)]
    exact List.Perm.refl _
  | succ n ih =>
    cases hcur : it.cur with
    | nil =>
      have hnext : it.hasNext = false := by
        rw [← Bool.not_eq_true, h.hasNext]
        exact fun hne => hne hcur
      rw [loop, if_neg (by simp [hnext]), pending, hcur, h.overList.mpr hcur]
      exact List.Perm.refl _
    | cons i cur =>
      obtain ⟨hready, hperm⟩ := h.advance hcur
      have hnext : it.hasNext = true := by
        rw [h.hasNext, hcur]
        rintro ⟨⟩
      have hlen := hperm.length_eq
      rw [List.length_cons] at hlen
      rw [loop, if_pos hnext, hcur]
      exact ((ih hready (by omega)).cons i.label).trans hperm.symm

end ContainerIterator

open ContainerIterator in
/-- The iteration over a container goes through everything inside it. -/
theorem ThingTree.perm_contents {t : ThingTree} (h : t.Closed) :
    (contents t).Perm (labelsList t.children) := by
  have hpending : (iterator t).pending = labelsList t.children := by
    unfold iterator pending
    split
    · next hnil =>
      rw [List.isEmpty_iff.mp hnil]
      rfl
    · simp [labelsList]
  have hready : (iterator t).Ready := by
    unfold iterator
    split
    · exact ⟨Iff.rfl, by rintro _ ⟨⟩, by rintro _ ⟨⟩⟩
    · next hne =>
      refine ⟨iff_of_false (by rintro ⟨⟩) fun hnil => hne (List.isEmpty_iff.mpr hnil),
        by rintro _ ⟨⟩, fun c hc => ?_⟩
      rw [List.tail_cons, List.append_nil] at hc
      exact closed_children h hc
  rw [← hpending]
  refine hready.perm_loop ?_
  rw [hpending, ← length_labels]
  obtain ⟨thing, itemlist⟩ := t
  rw [labels, List.length_cons]
  exact Nat.le_succ _

/-! ## Counting -/

namespace Inventory

variable (types : Items) (inv : Inventory) (itemId : UInt16) (amount : UInt32) (subType : ℤ)

/-- What a thing counts as an item of a type. -/
def units (thing : Thing) : ℕ :=
  if thing.item.id = itemId then thing.item.countByType types subType else 0

/-- Everything a player wears and carries. -/
def things : List Thing := inv.slots.flatMap fun slot => labelsList slot.toList

def owned : ℕ := (inv.things.map (units types itemId subType)).sum

/-- What the search goes through: an equipped match, or the matches inside another container. -/
def candidates : List Thing :=
  inv.slots.flatMap fun slot =>
    match slot with
    | none => []
    | some item =>
      if item.label.item.id = itemId then [item.label]
      else if item.label.item.cls.isContainer then item.contents.filter (·.item.id = itemId)
      else []

/-- The first things of a list that count something and reach an amount, in 32 bits. -/
def upTo (count : UInt32) : List Thing → Option (List Thing)
  | [] => none
  | thing :: l =>
    let itemCount := thing.countByType types subType
    if itemCount = 0 then upTo count l
    else if amount ≤ count + itemCount then some [thing]
    else (upTo (count + itemCount) l).map (thing :: ·)

def chosen : Option (List Thing) := upTo types amount subType 0 (inv.candidates itemId)

variable {types inv itemId amount subType} {l : List Thing} {s : Search}

theorem foldl_count (n : UInt32) :
    l.foldl (fun n thing =>
      if thing.item.id = itemId then n + thing.countByType types subType else n) n =
        n + UInt32.ofNat (l.map (units types itemId subType)).sum := by
  induction l generalizing n with
  | nil => simp
  | cons thing l ih =>
    rw [List.foldl_cons, ih, List.map_cons, List.sum_cons, UInt32.ofNat_add, ← add_assoc]
    congr 1
    unfold units
    split
    · rfl
    · simp

theorem getItemTypeCount_eq :
    inv.getItemTypeCount types itemId subType = UInt32.ofNat (inv.owned types itemId subType) := by
  obtain ⟨slots, hclosed⟩ := inv
  unfold getItemTypeCount owned things
  dsimp only
  suffices ∀ n : UInt32, slots.foldl _ n = n + _ by
    rw [this, UInt32.zero_add]
  intro n
  induction slots generalizing n with
  | nil => simp
  | cons slot slots ih =>
    have hslots := ih fun slot hslot => hclosed slot (List.mem_cons_of_mem _ hslot)
    rw [List.foldl_cons, hslots, List.flatMap_cons, List.map_append, List.sum_append,
      UInt32.ofNat_add, ← add_assoc]
    congr 1
    cases slot with
    | none => simp [labelsList]
    | some item =>
      have hitem := hclosed (some item) (by simp) item rfl
      have hlabels : labelsList (some item).toList = item.label :: labelsList item.children := by
        obtain ⟨thing, itemlist⟩ := item
        rw [Option.toList_some, labelsList_singleton]
        rfl
      have hlabel (n : UInt32) : (if item.label.item.id = itemId then
          n + item.label.countByType types subType else n) =
            n + UInt32.ofNat (units types itemId subType item.label) := by
        unfold units
        split
        · rfl
        · simp
      dsimp only
      rw [hlabels, List.map_cons, List.sum_cons, UInt32.ofNat_add, ← add_assoc, hlabel]
      split
      · rw [foldl_count, ((ThingTree.perm_contents hitem).map _).sum_eq]
      · next hnot =>
        rw [ThingTree.children_of_not_container hitem (by simpa using hnot)]
        simp [labelsList]

/-! ## The search -/

theorem foldl_add_of_found (h : s.found = true) :
    l.foldl (Search.add types amount subType) s = s := by
  induction l with
  | nil => rfl
  | cons thing l ih =>
    have hadd : s.add types amount subType thing = s := if_pos h
    rw [List.foldl_cons, hadd, ih]

theorem foldl_add_of_none (h : s.found = false) (hl : upTo types amount subType s.count l = none) :
    (l.foldl (Search.add types amount subType) s).found = false := by
  induction l generalizing s with
  | nil => exact h
  | cons thing l ih =>
    unfold upTo at hl
    dsimp only at hl
    rw [List.foldl_cons, Search.add, if_neg (by simp [h])]
    dsimp only
    split at hl
    · next hzero =>
      rw [if_pos hzero]
      exact ih h hl
    · next hzero =>
      rw [if_neg hzero]
      split at hl
      · cases hl
      · next hle => exact ih (by simpa using hle) (Option.map_eq_none_iff.mp hl)

theorem foldl_add_of_some {c : List Thing} (h : s.found = false)
    (hl : upTo types amount subType s.count l = some c) :
    (l.foldl (Search.add types amount subType) s).found = true ∧
      (l.foldl (Search.add types amount subType) s).itemList = s.itemList ++ c := by
  induction l generalizing s c with
  | nil => cases hl
  | cons thing l ih =>
    unfold upTo at hl
    dsimp only at hl
    rw [List.foldl_cons, Search.add, if_neg (by simp [h])]
    dsimp only
    split at hl
    · next hzero =>
      rw [if_pos hzero]
      exact ih h hl
    · next hzero =>
      rw [if_neg hzero]
      split at hl
      · next hle =>
        cases hl
        rw [foldl_add_of_found (by simpa using hle)]
        exact ⟨by simpa using hle, rfl⟩
      · next hle =>
        obtain ⟨c, hc, rfl⟩ := Option.map_eq_some_iff.mp hl
        obtain ⟨hfound, hlist⟩ := ih (s := ⟨s.itemList ++ [thing],
          s.count + thing.countByType types subType,
          amount ≤ s.count + thing.countByType types subType⟩) (by simpa using hle) hc
        refine ⟨hfound, hlist.trans ?_⟩
        simp

theorem foldl_searchSlot :
    inv.slots.foldl (searchSlot types itemId amount subType false) s =
      (inv.candidates itemId).foldl (Search.add types amount subType) s := by
  unfold candidates
  rw [List.foldl_flatMap]
  congr 1
  funext s slot
  unfold searchSlot
  cases slot with
  | none => rfl
  | some item =>
    dsimp only
    by_cases hid : item.label.item.id = itemId
    · rw [if_pos hid, if_pos (by simpa using hid)]
      rfl
    · rw [if_neg hid, if_neg (by simpa using hid)]
      split
      · rw [List.foldl_filter]
        simp
      · rfl

theorem mem_upTo {c : List Thing} {count : UInt32} (hc : upTo types amount subType count l = some c)
    {thing : Thing} (hthing : thing ∈ c) : thing ∈ l ∧ thing.countByType types subType ≠ 0 := by
  induction l generalizing count c with
  | nil => cases hc
  | cons head l ih =>
    unfold upTo at hc
    dsimp only at hc
    split at hc
    · obtain ⟨hmem, hne⟩ := ih hc hthing
      exact ⟨List.mem_cons_of_mem _ hmem, hne⟩
    · next hzero =>
      split at hc
      · cases hc
        obtain rfl := List.mem_singleton.mp hthing
        exact ⟨List.mem_cons_self, hzero⟩
      · obtain ⟨rest, hrest, rfl⟩ := Option.map_eq_some_iff.mp hc
        rcases List.mem_cons.mp hthing with rfl | hthing
        · exact ⟨List.mem_cons_self, hzero⟩
        · obtain ⟨hmem, hne⟩ := ih hrest hthing
          exact ⟨List.mem_cons_of_mem _ hmem, hne⟩

theorem id_of_mem_candidates {thing : Thing} (h : thing ∈ inv.candidates itemId) :
    thing.item.id = itemId := by
  obtain ⟨slot, _, h⟩ := List.mem_flatMap.mp h
  cases slot with
  | none => cases h
  | some item =>
    dsimp only at h
    split at h
    · next hid =>
      obtain rfl := List.mem_singleton.mp h
      exact hid
    · split at h
      · exact by simpa using (List.mem_filter.mp h).2
      · cases h

/-! ## The removal -/

/-- The things that go as a whole, and a stack with the number of items that it loses. -/
structure Plan where
  whole : List Thing
  stack : Option (Thing × ℕ) := none

/-- What is to be removed of a list of stacks. -/
def planStacks (amount : UInt32) : List Thing → Plan
  | [] => { whole := [] }
  | thing :: l =>
    if amount.toNat < thing.item.getItemCount then
      { whole := [], stack := some (thing, amount.toNat) }
    else
      let rest := planStacks (amount - UInt32.ofNat thing.item.getItemCount) l
      { rest with whole := thing :: rest.whole }

def plan (stackable : Bool) (amount : UInt32) (l : List Thing) : Plan :=
  if stackable then planStacks amount l else { whole := l }

/-- Whether a thing is removed with its branch. -/
def Plan.cuts (plan : Plan) (thing : Thing) : Bool :=
  thing ∈ plan.whole && thing.item.cls.canRemove

/-- Everything in the branches at the chosen things. -/
def gone (inv : Inventory) (p : Thing → Bool) : List Thing :=
  inv.slots.flatMap fun slot => labelsList (cutList p slot.toList)

/-- What the cut stack counts less afterwards. -/
def Plan.shrink (types : Items) (itemId : UInt16) (subType : ℤ) (plan : Plan) (left : Inventory) :
    ℕ :=
  match plan.stack with
  | none => 0
  | some (thing, n) =>
    if n = 0 ∨ thing.item.cls.canRemove = false then 0
    else left.things.count thing *
      (units types itemId subType thing - units types itemId subType (thing.take n))

/-- What the inventory counts less afterwards. -/
def lost (types : Items) (itemId : UInt16) (subType : ℤ) (inv : Inventory) (plan : Plan) : ℕ :=
  ((inv.gone plan.cuts).map (units types itemId subType)).sum +
    plan.shrink types itemId subType (inv.detach plan.cuts)

theorem ext {inv' : Inventory} (h : inv.slots = inv'.slots) : inv = inv' := by
  cases inv
  cases h
  rfl

theorem detach_detach (p q : Thing → Bool) :
    (inv.detach p).detach q = inv.detach fun t => p t || q t := by
  refine ext ?_
  unfold detach
  dsimp only
  rw [List.map_map]
  refine List.map_congr_left fun slot _ => ?_
  cases slot with
  | none => rfl
  | some t => exact prune_prune p q t

theorem detach_of_none {p : Thing → Bool} (h : ∀ t, p t = false) : inv.detach p = inv := by
  refine ext ?_
  unfold detach
  dsimp only
  conv_rhs => rw [← List.map_id inv.slots]
  refine List.map_congr_left fun slot _ => ?_
  cases slot with
  | none => rfl
  | some t => exact prune_of_none h t

theorem perm_things (p : Thing → Bool) :
    inv.things.Perm ((inv.detach p).things ++ inv.gone p) := by
  unfold things gone detach
  dsimp only
  induction inv.slots with
  | nil => exact List.Perm.refl _
  | cons slot slots ih =>
    have hslot : (labelsList slot.toList).Perm
        (labelsList (slot.bind (prune p)).toList ++ labelsList (cutList p slot.toList)) := by
      cases slot with
      | none => exact List.Perm.refl _
      | some t =>
        rw [Option.toList_some, labelsList_singleton, Option.bind_some, cutList, cutList,
          List.append_nil]
        exact perm_labels p t
    rw [List.flatMap_cons, List.map_cons, List.flatMap_cons, List.flatMap_cons]
    refine (hslot.append ih).trans ?_
    rw [List.append_assoc, List.append_assoc]
    refine List.Perm.append_left _ ?_
    rw [← List.append_assoc, ← List.append_assoc]
    exact List.Perm.append_right _ List.perm_append_comm

theorem owned_detach (p : Thing → Bool) :
    inv.owned types itemId subType = (inv.detach p).owned types itemId subType +
      ((inv.gone p).map (units types itemId subType)).sum := by
  unfold owned
  rw [((inv.perm_things p).map _).sum_eq, List.map_append, List.sum_append]

theorem things_update {thing thing' : Thing} (h : thing'.item.cls = thing.item.cls) :
    (inv.update thing thing' h).things =
      inv.things.map fun t => if t = thing then thing' else t := by
  unfold things update
  dsimp only
  rw [List.flatMap_map, List.map_flatMap]
  refine List.flatMap_congr fun slot _ => ?_
  cases slot with
  | none => rfl
  | some t => simp

theorem sum_map_replace {thing thing' : Thing} {f : Thing → ℕ} (h : f thing' ≤ f thing) :
    (l.map f).sum = ((l.map fun t => if t = thing then thing' else t).map f).sum +
      l.count thing * (f thing - f thing') := by
  induction l with
  | nil => simp
  | cons t l ih =>
    rw [List.map_cons, List.sum_cons, List.map_cons, List.map_cons, List.sum_cons,
      List.count_cons, Nat.add_mul, ih]
    by_cases ht : t = thing
    · subst ht
      simp only [if_true, beq_self_eq_true]
      omega
    · simp only [if_neg ht, beq_iff_eq]
      omega

theorem internalRemoveItem_whole {thing : Thing} (h : thing.item.getItemCount ≠ 0) :
    inv.internalRemoveItem types thing thing.item.getItemCount =
      inv.detach fun t => t == thing && thing.item.cls.canRemove := by
  unfold internalRemoveItem removeThing
  rw [if_neg (by omega)]
  split
  · next hcan =>
    rw [hcan, detach_of_none fun t => Bool.and_false _]
  · next hcan =>
    simp [hcan]

theorem cuts_cons {thing : Thing} {whole : List Thing} {stack : Option (Thing × ℕ)} :
    (Plan.mk (thing :: whole) stack).cuts = fun t =>
      (t == thing && thing.item.cls.canRemove) || (Plan.mk whole stack).cuts t := by
  funext t
  unfold Plan.cuts
  by_cases ht : t = thing
  · subst ht
    simp
  · simp [ht]

theorem cuts_nil {stack : Option (Thing × ℕ)} (t : Thing) :
    (Plan.mk [] stack).cuts t = false := by
  simp [Plan.cuts]

theorem internalRemoveItems_single (hl : ∀ t ∈ l, t.item.getItemCount ≠ 0) :
    inv.internalRemoveItems types l amount false = inv.detach (Plan.mk l none).cuts := by
  induction l generalizing inv with
  | nil => exact (detach_of_none cuts_nil).symm
  | cons thing l ih =>
    rw [internalRemoveItems, internalRemoveItem_whole (hl thing (by simp)),
      ih fun t ht => hl t (List.mem_cons_of_mem _ ht), detach_detach, ← cuts_cons]

/-- What happens to the stack that is cut last. -/
def takeStack (types : Items) (inv : Inventory) : Option (Thing × ℕ) → Inventory
  | none => inv
  | some (thing, n) => inv.internalRemoveItem types thing n

theorem internalRemoveItems_stacks (hl : ∀ t ∈ l, t.item.getItemCount ≠ 0) :
    inv.internalRemoveItems types l amount true =
      (inv.detach (planStacks amount l).cuts).takeStack types (planStacks amount l).stack := by
  induction l generalizing inv amount with
  | nil => exact (detach_of_none cuts_nil).symm
  | cons thing l ih =>
    rw [internalRemoveItems, planStacks]
    split
    · rw [detach_of_none cuts_nil]
      rfl
    · rw [internalRemoveItem_whole (hl thing (by simp)),
        ih fun t ht => hl t (List.mem_cons_of_mem _ ht), detach_detach]
      dsimp only
      rw [cuts_cons]

theorem internalRemoveItems_eq {stackable : Bool} (hl : ∀ t ∈ l, t.item.getItemCount ≠ 0) :
    inv.internalRemoveItems types l amount stackable =
      (inv.detach (plan stackable amount l).cuts).takeStack types
        (plan stackable amount l).stack := by
  cases stackable with
  | false => exact internalRemoveItems_single hl
  | true => exact internalRemoveItems_stacks hl

theorem mem_stack {thing : Thing} {n : ℕ} (h : (planStacks amount l).stack = some (thing, n)) :
    thing ∈ l ∧ n < thing.item.getItemCount := by
  induction l generalizing amount with
  | nil => cases h
  | cons head l ih =>
    rw [planStacks] at h
    split at h
    · next hlt =>
      cases h
      exact ⟨List.mem_cons_self, hlt⟩
    · obtain ⟨hmem, hlt⟩ := ih h
      exact ⟨List.mem_cons_of_mem _ hmem, hlt⟩

/-- A stack of which a part is taken counts less. -/
theorem units_take_le {thing : Thing} {n : ℕ} (h : thing.countByType types subType ≠ 0)
    (hid : thing.item.id = itemId) :
    units types itemId subType (thing.take n) ≤ units types itemId subType thing := by
  have hcount : thing.item.countByType types subType = thing.item.getItemCount := by
    unfold Thing.countByType Item.countByType at h
    unfold Item.countByType
    split at h
    · next hsub => rw [if_pos hsub]
    · exact absurd rfl h
  have hle : (thing.take n).item.getItemCount ≤ thing.item.getItemCount := by
    unfold Thing.take Item.setItemCount Item.getItemCount
    dsimp only
    rw [UInt8.toNat_ofNat']
    exact (Nat.mod_le _ _).trans (Nat.sub_le _ _)
  unfold units
  rw [if_pos hid, if_pos (show (thing.take n).item.id = itemId from hid), hcount]
  unfold Item.countByType
  split
  · exact hle
  · exact Nat.zero_le _

theorem getItemCount_ne_zero {thing : Thing} (h : thing.countByType types subType ≠ 0) :
    thing.item.getItemCount ≠ 0 := by
  intro hzero
  refine h ?_
  unfold Thing.countByType Item.countByType
  rw [hzero, ite_self]
  rfl

/-- The removal of collected things takes from the inventory what is lost. -/
theorem owned_internalRemoveItems
    (hl : ∀ t ∈ l, t.item.id = itemId ∧ t.countByType types subType ≠ 0) :
    inv.owned types itemId subType =
      (inv.internalRemoveItems types l amount (types.getItemType itemId).stackable).owned
          types itemId subType +
        inv.lost types itemId subType (plan (types.getItemType itemId).stackable amount l) := by
  rw [internalRemoveItems_eq fun t ht => getItemCount_ne_zero (hl t ht).2]
  set p := plan (types.getItemType itemId).stackable amount l with hp
  rw [lost, owned_detach p.cuts]
  suffices (inv.detach p.cuts).owned types itemId subType =
      ((inv.detach p.cuts).takeStack types p.stack).owned types itemId subType +
        p.shrink types itemId subType (inv.detach p.cuts) by
    omega
  generalize inv.detach p.cuts = left
  unfold Plan.shrink
  cases hstack : p.stack with
  | none => rfl
  | some entry =>
    obtain ⟨thing, n⟩ := entry
    have hstackable : (types.getItemType itemId).stackable = true := by
      by_contra hnot
      rw [hp, plan, if_neg hnot] at hstack
      cases hstack
    rw [hp, plan, if_pos hstackable] at hstack
    obtain ⟨hmem, hlt⟩ := mem_stack hstack
    obtain ⟨hid, hne⟩ := hl thing hmem
    have hthing : thing.item.isStackable types = true := by
      unfold Item.isStackable Item.getType
      rw [hid, hstackable]
    unfold takeStack internalRemoveItem removeThing
    dsimp only
    by_cases hn : n = 0
    · rw [if_pos (Or.inl hn), if_pos (Or.inl hn)]
      rfl
    · rw [if_neg (by omega)]
      by_cases hcan : thing.item.cls.canRemove = false
      · rw [if_pos hcan, if_pos (Or.inr hcan)]
        rfl
      · rw [if_neg hcan, if_pos (by simp [hthing, Nat.ne_of_lt hlt]), if_neg (by tauto)]
        unfold owned
        rw [things_update]
        exact sum_map_replace (units_take_le hne hid)

/-! ## Exactness -/

section Exact

variable (types inv itemId amount subType)

/-- Exactly an amount is removed, where the count says that there is as much, and nothing
elsewhere. -/
structure RemovesExactly : Prop where
  result : (inv.removeItemOfType types itemId amount subType false).1 = true ↔
    amount ≤ inv.getItemTypeCount types itemId subType
  removed : (inv.removeItemOfType types itemId amount subType false).1 = true →
    ((inv.removeItemOfType types itemId amount subType false).2.getItemTypeCount
      types itemId subType).toNat + amount.toNat =
        (inv.getItemTypeCount types itemId subType).toNat
  kept : (inv.removeItemOfType types itemId amount subType false).1 = false →
    (inv.removeItemOfType types itemId amount subType false).2 = inv

/-- The search comes to enough where there is enough, and what goes with the things that it
chooses counts the amount; all counts are in 32 bits. -/
def Fits : Prop :=
  amount = 0 ∨
    match inv.chosen types itemId amount subType with
    | none => inv.owned types itemId subType % 2 ^ 32 < amount.toNat
    | some l => amount.toNat ≤ inv.owned types itemId subType % 2 ^ 32 ∧
      inv.lost types itemId subType (plan (types.getItemType itemId).stackable amount l) % 2 ^ 32 =
        amount.toNat

end Exact

theorem toNat_getItemTypeCount : (inv.getItemTypeCount types itemId subType).toNat =
    inv.owned types itemId subType % 2 ^ 32 := by
  rw [getItemTypeCount_eq, UInt32.toNat_ofNat']

/-- Exactly the amount is removed if and only if the search fits the count. -/
theorem removesExactly_iff :
    inv.RemovesExactly types itemId amount subType ↔ inv.Fits types itemId amount subType := by
  by_cases hzero : amount = 0
  · have heq : inv.removeItemOfType types itemId amount subType false = (true, inv) := if_pos hzero
    refine iff_of_true ⟨?_, fun _ => ?_, fun _ => ?_⟩ (Or.inl hzero)
    · rw [heq, hzero]
      simp
    · rw [heq, hzero]
      simp
    · rw [heq]
  · have hfits : inv.Fits types itemId amount subType ↔ _ := or_iff_right hzero
    rw [hfits]
    have hremove : inv.removeItemOfType types itemId amount subType false =
        let s := (inv.candidates itemId).foldl (Search.add types amount subType) {}
        if s.found then
          (true, inv.internalRemoveItems types s.itemList amount
            (types.getItemType itemId).stackable)
        else (false, inv) := by
      rw [removeItemOfType, if_neg hzero, foldl_searchSlot]
    split
    · next hnone =>
      have hfound := foldl_add_of_none (s := {}) rfl hnone
      dsimp only at hremove
      rw [hfound, if_neg Bool.false_ne_true] at hremove
      constructor
      · intro h
        have hresult := h.result
        rw [hremove, UInt32.le_iff_toNat_le, toNat_getItemTypeCount] at hresult
        by_contra hle
        exact Bool.false_ne_true (hresult.mpr (by omega))
      · intro hlt
        refine ⟨?_, fun htrue => ?_, fun _ => ?_⟩
        · rw [hremove, UInt32.le_iff_toNat_le, toNat_getItemTypeCount]
          exact iff_of_false Bool.false_ne_true (by omega)
        · rw [hremove] at htrue
          cases htrue
        · rw [hremove]
    · next l hsome =>
      obtain ⟨hfound, hlist⟩ := foldl_add_of_some (s := {}) rfl hsome
      rw [List.nil_append] at hlist
      dsimp only at hremove
      rw [hfound, if_pos rfl, hlist] at hremove
      have hmem : ∀ t ∈ l, t.item.id = itemId ∧ t.countByType types subType ≠ 0 := by
        intro t ht
        obtain ⟨hcand, hne⟩ := mem_upTo hsome ht
        exact ⟨id_of_mem_candidates hcand, hne⟩
      have howned : inv.owned types itemId subType = _ + inv.lost types itemId subType
          (plan (types.getItemType itemId).stackable amount l) := owned_internalRemoveItems hmem
      have hlt := amount.toNat_lt
      constructor
      · intro h
        have hle := h.result.mp (by rw [hremove])
        have hremoved := h.removed (by rw [hremove])
        rw [UInt32.le_iff_toNat_le, toNat_getItemTypeCount] at hle
        rw [hremove, toNat_getItemTypeCount, toNat_getItemTypeCount] at hremoved
        dsimp only at hremoved
        omega
      · rintro ⟨hle, hlost⟩
        refine ⟨?_, fun _ => ?_, fun hfalse => ?_⟩
        · rw [hremove, UInt32.le_iff_toNat_le, toNat_getItemTypeCount]
          exact iff_of_true rfl hle
        · rw [hremove, toNat_getItemTypeCount, toNat_getItemTypeCount]
          dsimp only
          omega
        · rw [hremove] at hfalse
          cases hfalse

/-- A type of backpacks, and no other types. -/
def backpackTypes : Items where
  items id := if id = 1988 then { id := 1988, group := .container } else {}
  reverseItemMap _ := none

def backpack : Item := { cls := .container, id := 1988 }

/-- A backpack that is worn, with a second one inside. -/
def twoBackpacks : Inventory where
  slots := [some (.node ⟨1, backpack⟩ [.node ⟨2, backpack⟩ []])]
  closed := by decide

/-- One backpack is to be removed of two, and both are gone. -/
theorem not_removesExactly_twoBackpacks :
    ¬ twoBackpacks.RemovesExactly backpackTypes 1988 1 (-1) := by
  intro h
  exact absurd (h.removed (by decide)) (by decide)

end Inventory

end OTServBR.Carried
