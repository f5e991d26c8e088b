import OTServBR.Item.Basic
import OTServBR.Lib.RoseTree

/-! # The holding limits

`queryAdd` compares what the container at the top holds with two limits of the
configuration. The walk that looks for it stops one container too early, so
that the limits bind in the outermost container only.
-/

namespace OTServBR.Limits

/-- An item as `queryAdd` sees it. -/
structure Thing where
  /-- The address of the object. -/
  ref : ℕ
  cls : ItemClass
  pickupable : Bool := true
  maxSize : ℕ := 0
  unlocked : Bool := true
  pagination : Bool := false
  deriving DecidableEq, Repr

abbrev ThingTree := RoseTree Thing

inductive ReturnValue
  | noError | notPossible | cannotPickup | thisIsImpossible | containerNotEnoughRoom
  | notEnoughCapacity | depotIsFull
  deriving DecidableEq, Repr

structure Flags where
  noLimit : Bool := false
  childIsOwner : Bool := false
  deriving DecidableEq, Repr

/-- `MAX_ITEM` and `MAX_CONTAINER` of the configuration. -/
structure Config where
  maxItem : ℕ
  maxContainer : ℕ
  deriving DecidableEq, Repr

namespace ThingTree

/-- What a container holds directly. -/
def itemlist (t : ThingTree) : List ThingTree := t.children

def isContainer (t : ThingTree) : Bool := t.label.cls.isContainer

/-- What is still to be visited, each item twice as there may be a container to enter. -/
def pending (l : List ThingTree) : ℕ := 2 * (l.map RoseTree.size).sum + 1

/-- The items that a `ContainerIterator` visits: `cur` goes through the container at the front,
and containers that are not empty are kept in `queued`. -/
def visit : List ThingTree → List (List ThingTree) → List ThingTree
  | [], [] => []
  | [], next :: queued => visit next queued
  | item :: cur, queued =>
    item :: visit cur
      (queued ++ if item.isContainer ∧ item.itemlist ≠ [] then [item.itemlist] else [])
termination_by cur queued => ((cur :: queued).map pending).sum
decreasing_by
  · simp [pending]
  · obtain ⟨a, l⟩ := item
    simp only [List.map_cons, List.map_append, List.sum_cons, List.sum_append, pending]
    rw [RoseTree.size_node]
    split
    · simp only [itemlist, RoseTree.children_node, List.map_cons, List.map_nil, List.sum_cons,
        List.sum_nil, pending]
      omega
    · simp only [List.map_nil, List.sum_nil]
      omega

def iterator (t : ThingTree) : List ThingTree := visit t.itemlist []

def getItemHoldingCount (t : ThingTree) : ℕ := t.iterator.length

def getContainerHoldingCount (t : ThingTree) : ℕ := (t.iterator.filter isContainer).length

end ThingTree

/-- A cylinder around a container: another container, a player or a tile. -/
structure Cylinder where
  /-- `getContainer` -/
  container : Option ThingTree := none
  /-- What `queryAdd` of the class answers to a child container. -/
  answer : ThingTree → ReturnValue

/-- A container of the class `Container`, which lets its child containers decide. -/
def Cylinder.ofContainer (t : ThingTree) : Cylinder :=
  { container := some t, answer := fun _ => .noError }

/-- The loop that `getTopParentContainer` and `getTopParent` share: `above` are the parents of
the thing, nearest first. -/
def walk {α : Type} (prevThing : α) : List α → α
  | [] => prevThing
  | thing :: above => go prevThing thing above
where
  go (prevThing thing : α) : List α → α
    | [] => prevThing
    | parent :: above => go thing parent above

namespace Container

open ThingTree

/-- The parents that are containers, up to the first that is not. -/
def containersAbove : List Cylinder → List ThingTree
  | [] => []
  | cylinder :: above =>
    match cylinder.container with
    | some t => t :: containersAbove above
    | none => []

def getTopParentContainer (this : ThingTree) (above : List Cylinder) : ThingTree :=
  walk this (containersAbove above)

/-- The loop over the parents of the container. -/
def queryParents (thing : ThingTree) (flags : Flags) : List Cylinder → ReturnValue
  | [] => .noError
  | cylinder :: above =>
    match cylinder.container with
    | none => queryParents thing flags above
    | some t =>
      if t.label.ref = thing.label.ref then .thisIsImpossible
      else if !flags.noLimit && t.label.cls = .inbox then .containerNotEnoughRoom
      else queryParents thing flags above

/-- The check against the limits, which counts an added container with what it holds. -/
def queryLimits (config : Config) (top thing : ThingTree) : ReturnValue :=
  if thing.isContainer ∧
      thing.getContainerHoldingCount + 1 + top.getContainerHoldingCount > config.maxContainer then
    .notPossible
  else if thing.isContainer ∧
      thing.getItemHoldingCount + 1 + top.getItemHoldingCount > config.maxItem then
    .notPossible
  else if top.getItemHoldingCount + 1 > config.maxItem then .notPossible
  else .noError

/-- `Container::queryAdd` of a container with the cylinders around it; `addIndex` is `none` for
`INDEX_WHEREEVER`. -/
def queryAdd (config : Config) (this : ThingTree) (above : List Cylinder) (addIndex : Option ℕ)
    (thing : ThingTree) (flags : Flags) : ReturnValue :=
  if flags.childIsOwner then .noError
  else if !this.label.unlocked then .notPossible
  else if !thing.label.pickupable then .cannotPickup
  else if thing.label.ref = this.label.ref then .thisIsImpossible
  else
    match queryParents thing flags above with
    | .noError =>
      if !flags.noLimit && addIndex.isNone && this.label.maxSize ≤ this.itemlist.length &&
          !this.label.pagination then
        .containerNotEnoughRoom
      else
        match queryLimits config (getTopParentContainer this above) thing with
        -- a container that is its own top parent has no more to say
        | .noError => (walk (Cylinder.ofContainer this) above).answer thing
        | r => r
    | r => r

end Container

namespace ThingTree

/-- The container at a path and the containers around it, nearest first. -/
def locate : List ℕ → ThingTree → Option (ThingTree × List ThingTree)
  | [], t => if t.isContainer then some (t, []) else none
  | k :: path, t =>
    if t.isContainer then
      match t.itemlist[k]? with
      | none => none
      | some child => (locate path child).map fun (this, parents) => (this, parents ++ [t])
    else none

/-- Put a thing into the container at a path. -/
def add : ThingTree → List ℕ → ThingTree → ThingTree
  | .node a l, [], thing => .node a (thing :: l)
  | .node a l, k :: path, thing =>
    match l[k]? with
    | none => .node a l
    | some child => .node a (l.set k (add child path thing))

/-- The outermost container keeps to the limits. -/
def Within (config : Config) (t : ThingTree) : Prop :=
  t.getItemHoldingCount ≤ config.maxItem ∧ t.getContainerHoldingCount ≤ config.maxContainer

/-- Whatever the container at a path accepts, the limits hold of the outermost container. -/
def LimitsBind (t : ThingTree) (path : List ℕ) (this : ThingTree) (parents : List ThingTree) :
    Prop :=
  ∀ config above addIndex thing flags, Container.containersAbove above = parents →
    flags.childIsOwner = false → Within config t →
    Container.queryAdd config this above addIndex thing flags = .noError →
    Within config (t.add path thing)

end ThingTree

namespace ThingTree

variable {q : Thing → Bool} {t : ThingTree}

mutual

/-- An item and all that it holds, counted where a test of the items holds. -/
def held (q : Thing → Bool) : ThingTree → ℕ
  | .node a l => (if q a then 1 else 0) + if a.cls.isContainer then heldList q l else 0

def heldList (q : Thing → Bool) : List ThingTree → ℕ
  | [] => 0
  | t :: l => held q t + heldList q l

end

theorem held_eq : held q t =
    (if q t.label then 1 else 0) + if t.isContainer then heldList q t.itemlist else 0 := by
  obtain ⟨a, l⟩ := t
  rfl

/-- The iterator visits every item once. -/
theorem countP_visit (cur : List ThingTree) (queued : List (List ThingTree)) :
    (visit cur queued).countP (fun t => q t.label) =
      heldList q cur + (queued.map (heldList q)).sum := by
  fun_induction visit cur queued with
  | case1 => rfl
  | case2 next queued ih => rw [ih, heldList, List.map_cons, List.sum_cons, Nat.zero_add]
  | case3 item cur queued ih =>
    have hqueue : ((if item.isContainer ∧ item.itemlist ≠ [] then [item.itemlist] else []).map
        (heldList q)).sum = if item.isContainer then heldList q item.itemlist else 0 := by
      by_cases hnil : item.itemlist = []
      · simp [hnil, heldList]
      · by_cases hcontainer : item.isContainer <;> simp [hnil, hcontainer]
    rw [dite_eq_ite] at ih
    rw [List.countP_cons, ih, List.map_append, List.sum_append, hqueue, heldList, held_eq]
    omega

theorem getItemHoldingCount_eq : t.getItemHoldingCount = heldList (fun _ => true) t.itemlist := by
  have hcount := countP_visit (q := fun _ => true) t.itemlist []
  rwa [List.countP_true, List.map_nil, List.sum_nil, Nat.add_zero] at hcount

theorem getContainerHoldingCount_eq :
    t.getContainerHoldingCount = heldList (fun a => a.cls.isContainer) t.itemlist := by
  have hcount := countP_visit (q := fun a => a.cls.isContainer) t.itemlist []
  rw [List.map_nil, List.sum_nil, Nat.add_zero, List.countP_eq_length_filter] at hcount
  exact hcount

theorem heldList_set {l : List ThingTree} {k : ℕ} {child child' : ThingTree}
    (hk : l[k]? = some child) :
    heldList q (l.set k child') + held q child = heldList q l + held q child' := by
  induction l generalizing k with
  | nil => cases hk
  | cons t l ih =>
    cases k with
    | zero =>
      obtain rfl : t = child := Option.some.inj hk
      rw [List.set_cons_zero, heldList, heldList]
      omega
    | succ k =>
      have hset := ih hk
      rw [List.set_cons_succ, heldList, heldList]
      omega

theorem held_le_heldList {l : List ThingTree} {child : ThingTree} (h : child ∈ l) :
    held q child ≤ heldList q l := by
  induction l with
  | nil => cases h
  | cons t l ih =>
    rw [heldList]
    obtain rfl | h := List.mem_cons.mp h
    · exact Nat.le_add_right _ _
    · exact (ih h).trans (Nat.le_add_left _ _)

theorem label_add (thing : ThingTree) (path : List ℕ) : (t.add path thing).label = t.label := by
  obtain ⟨a, l⟩ := t
  cases path with
  | nil => rfl
  | cons k path =>
    rw [add]
    split <;> rfl

theorem locate_nil {p : ThingTree × List ThingTree} (h : locate [] t = some p) : p = (t, []) := by
  rw [locate] at h
  split at h
  · exact (Option.some.inj h).symm
  · cases h

theorem locate_cons {k : ℕ} {path : List ℕ} {this : ThingTree} {parents : List ThingTree}
    (h : locate (k :: path) t = some (this, parents)) :
    ∃ child parents', t.itemlist[k]? = some child ∧ locate path child = some (this, parents') ∧
      parents = parents' ++ [t] := by
  rw [locate] at h
  split at h
  · split at h
    · cases h
    · next child hchild =>
      obtain ⟨⟨this', parents'⟩, hlocate, heq⟩ := Option.map_eq_some_iff.mp h
      obtain ⟨rfl, rfl⟩ := Prod.mk.inj heq
      exact ⟨child, parents', hchild, hlocate, rfl⟩
  · cases h

theorem isContainer_of_locate {path : List ℕ} {p : ThingTree × List ThingTree}
    (h : locate path t = some p) : t.isContainer := by
  cases path <;> rw [locate] at h <;> split at h <;> first | assumption | cases h

/-- What is added at a path counts in the outermost container. -/
theorem heldList_add {thing this : ThingTree} {path : List ℕ} {parents : List ThingTree}
    (h : locate path t = some (this, parents)) :
    heldList q (t.add path thing).itemlist = heldList q t.itemlist + held q thing := by
  induction path generalizing t parents with
  | nil =>
    obtain ⟨a, l⟩ := t
    exact Nat.add_comm _ _
  | cons k path ih =>
    obtain ⟨child, parents', hchild, hlocate, -⟩ := locate_cons h
    have hheld : held q (child.add path thing) = held q child + held q thing := by
      have hcontainer := isContainer_of_locate hlocate
      have hcontainer' : (child.add path thing).isContainer := by
        rwa [isContainer, label_add]
      rw [held_eq, held_eq (t := child), label_add, if_pos hcontainer, if_pos hcontainer',
        ih hlocate]
      omega
    obtain ⟨a, l⟩ := t
    have hset : heldList q (l.set k (child.add path thing)) + held q child =
        heldList q l + held q (child.add path thing) := heldList_set hchild
    have hadd : (add (.node a l) (k :: path) thing).itemlist = l.set k (child.add path thing) := by
      rw [add, show l[k]? = some child from hchild]
      rfl
    rw [hadd]
    change heldList q (l.set k (child.add path thing)) = heldList q l + held q thing
    omega

end ThingTree

/-- The walk stops one thing before the last. -/
theorem walk_append_singleton {α : Type} (thing : α) (above : List α) (last : α) :
    walk thing (above ++ [last]) = (thing :: above).getLast (List.cons_ne_nil _ _) := by
  have hgo : ∀ (above : List α) (prevThing thing : α), walk.go prevThing thing (above ++ [last]) =
      (thing :: above).getLast (List.cons_ne_nil _ _) := by
    intro above
    induction above with
    | nil => exact fun _ _ => rfl
    | cons parent above ih => exact fun _ thing => ih thing parent
  cases above with
  | nil => rfl
  | cons parent above => exact hgo above thing parent

namespace ThingTree

variable {t : ThingTree}

theorem getLast_of_locate {path : List ℕ} {this : ThingTree} {parents : List ThingTree}
    (h : locate path t = some (this, parents)) :
    (this :: parents).getLast (List.cons_ne_nil _ _) = t := by
  cases path with
  | nil =>
    obtain ⟨rfl, rfl⟩ := Prod.mk.inj (locate_nil h)
    rfl
  | cons k path =>
    obtain ⟨child, parents', -, -, rfl⟩ := locate_cons h
    rw [List.getLast_cons (by simp), List.getLast_append_singleton]

/-- Below the outermost container the walk ends at a container inside of it. -/
theorem walk_of_locate {k : ℕ} {path : List ℕ} {this : ThingTree} {parents : List ThingTree}
    (h : locate (k :: path) t = some (this, parents)) :
    walk this parents ∈ t.itemlist ∧ (walk this parents).isContainer := by
  obtain ⟨child, parents', hchild, hlocate, rfl⟩ := locate_cons h
  rw [walk_append_singleton, getLast_of_locate hlocate]
  exact ⟨List.mem_of_getElem? hchild, isContainer_of_locate hlocate⟩

end ThingTree

namespace Container

open ThingTree

variable {t this : ThingTree} {path : List ℕ} {parents : List ThingTree}

theorem containersAbove_map (parents : List ThingTree) :
    containersAbove (parents.map Cylinder.ofContainer) = parents := by
  induction parents with
  | nil => rfl
  | cons t parents ih =>
    rw [List.map_cons, containersAbove]
    exact congrArg (t :: ·) ih

/-- Without limits a thing from elsewhere meets no objection of the parents. -/
theorem queryParents_noLimit {thing : ThingTree} {flags : Flags} (hflags : flags.noLimit = true)
    (hfresh : ∀ t ∈ parents, t.label.ref ≠ thing.label.ref) :
    queryParents thing flags (parents.map Cylinder.ofContainer) = .noError := by
  induction parents with
  | nil => rfl
  | cons t parents ih =>
    obtain ⟨ht, hparents⟩ := List.forall_mem_cons.mp hfresh
    rw [List.map_cons, queryParents]
    dsimp only [Cylinder.ofContainer]
    rw [if_neg ht, hflags, Bool.not_true, Bool.false_and, if_neg Bool.false_ne_true]
    exact ih hparents

theorem walk_map {α β : Type} (f : α → β) (thing : α) (above : List α) :
    walk (f thing) (above.map f) = f (walk thing above) := by
  have hgo : ∀ (above : List α) (prevThing thing : α),
      walk.go (f prevThing) (f thing) (above.map f) = f (walk.go prevThing thing above) := by
    intro above
    induction above with
    | nil => exact fun _ _ => rfl
    | cons parent above ih => exact fun _ thing => ih thing parent
  cases above with
  | nil => rfl
  | cons parent above => exact hgo above thing parent

/-- What `queryAdd` accepts has passed the check against the limits. -/
theorem queryLimits_of_queryAdd {config : Config} {above : List Cylinder} {addIndex : Option ℕ}
    {thing : ThingTree} {flags : Flags} (hflags : flags.childIsOwner = false)
    (h : queryAdd config this above addIndex thing flags = .noError) :
    this.label.unlocked ∧
      queryLimits config (getTopParentContainer this above) thing = .noError := by
  rw [queryAdd, hflags, if_neg Bool.false_ne_true] at h
  split at h
  · cases h
  · next hunlocked =>
    refine ⟨by simpa using hunlocked, ?_⟩
    split at h
    · cases h
    · split at h
      · cases h
      · split at h
        · split at h
          · cases h
          · split at h
            · assumption
            · exact absurd h ‹_›
        · exact absurd h ‹_›

/-- A thing that passes the check fits into the container it is checked against. -/
theorem within_of_queryLimits {config : Config} {thing : ThingTree}
    (hlocate : locate path t = some (this, parents)) (hwithin : Within config t)
    (h : queryLimits config t thing = .noError) : Within config (t.add path thing) := by
  have hitems := getItemHoldingCount_eq (t := t)
  have hcontainers := getContainerHoldingCount_eq (t := t)
  unfold Within at hwithin ⊢
  rw [getItemHoldingCount_eq, getContainerHoldingCount_eq, heldList_add hlocate,
    heldList_add hlocate, held_eq, held_eq, if_pos rfl, ← hitems, ← hcontainers,
    ← getItemHoldingCount_eq, ← getContainerHoldingCount_eq]
  unfold queryLimits at h
  by_cases hthing : thing.isContainer
  · have hclass : thing.label.cls.isContainer = true := hthing
    simp only [hthing, hclass, true_and, if_true, gt_iff_lt] at h ⊢
    split at h
    · cases h
    · split at h
      · cases h
      · omega
  · have hclass : ¬ thing.label.cls.isContainer = true := hthing
    rw [if_neg (fun h => hthing h.1), if_neg (fun h => hthing h.1)] at h
    rw [if_neg hthing, if_neg hthing, if_neg hclass]
    split at h
    · cases h
    · omega

/-- A plain item with an address that none of the containers has. -/
def freshItem (containers : List ThingTree) : ThingTree :=
  .node { ref := (containers.map fun t => t.label.ref).sum + 1, cls := .item } []

theorem ref_freshItem {containers : List ThingTree} (h : t ∈ containers) :
    t.label.ref ≠ (freshItem containers).label.ref := by
  have hle : t.label.ref ≤ (containers.map fun t => t.label.ref).sum :=
    List.le_sum_of_mem (List.mem_map_of_mem h)
  change t.label.ref ≠ _ + 1
  omega

/-- An unlocked container inside another one accepts an item that its outermost container has no
room for. -/
theorem not_limitsBind {k : ℕ} (hlocate : locate (k :: path) t = some (this, parents))
    (hunlocked : this.label.unlocked = true) : ¬ LimitsBind t (k :: path) this parents := by
  intro hbind
  have hitems := getItemHoldingCount_eq (t := t)
  have hcontainers := getContainerHoldingCount_eq (t := t)
  obtain ⟨hmem, hcontainer⟩ := walk_of_locate hlocate
  have htop : (walk this parents).getItemHoldingCount + 1 ≤ t.getItemHoldingCount := by
    have hle := held_le_heldList (q := fun _ => true) hmem
    rw [held_eq, if_pos rfl, if_pos hcontainer, ← getItemHoldingCount_eq, ← hitems] at hle
    omega
  have hwithin := hbind ⟨t.getItemHoldingCount, t.getContainerHoldingCount⟩
    (parents.map Cylinder.ofContainer) none (freshItem (this :: parents)) { noLimit := true }
    (containersAbove_map parents) rfl ⟨le_rfl, le_rfl⟩ ?_
  · have hfull := hwithin.1
    rw [getItemHoldingCount_eq, heldList_add hlocate, ← hitems] at hfull
    change _ + 1 ≤ t.getItemHoldingCount at hfull
    omega
  · have hparents : queryParents (freshItem (this :: parents)) { noLimit := true }
        (parents.map Cylinder.ofContainer) = .noError :=
      queryParents_noLimit rfl fun t ht => ref_freshItem (List.mem_cons_of_mem this ht)
    have hself := (ref_freshItem (List.mem_cons_self (a := this) (l := parents))).symm
    have hpickupable : (freshItem (this :: parents)).label.pickupable = true := rfl
    have hlimits : queryLimits ⟨t.getItemHoldingCount, t.getContainerHoldingCount⟩
        (walk this parents) (freshItem (this :: parents)) = .noError := by
      have hplain : ¬ (freshItem (this :: parents)).isContainer := Bool.false_ne_true
      rw [queryLimits, if_neg (fun h => hplain h.1), if_neg (fun h => hplain h.1),
        if_neg (Nat.not_lt.mpr htop)]
    rw [queryAdd, if_neg Bool.false_ne_true, hunlocked, Bool.not_true, if_neg Bool.false_ne_true,
      hpickupable, Bool.not_true, if_neg Bool.false_ne_true, if_neg hself, hparents]
    dsimp only
    rw [getTopParentContainer, containersAbove_map, hlimits, walk_map]
    rfl

/-- The limits bind whatever a container accepts, exactly if it is the outermost one or locked. -/
theorem limitsBind_iff (hlocate : locate path t = some (this, parents)) :
    LimitsBind t path this parents ↔ path = [] ∨ this.label.unlocked = false := by
  cases path with
  | nil =>
    refine iff_of_true ?_ (.inl rfl)
    intro config above addIndex thing flags habove hflags hwithin haccept
    obtain ⟨rfl, rfl⟩ := Prod.mk.inj (locate_nil hlocate)
    have hlimits := (queryLimits_of_queryAdd hflags haccept).2
    rw [getTopParentContainer, habove] at hlimits
    exact within_of_queryLimits hlocate hwithin hlimits
  | cons k path =>
    constructor
    · intro hbind
      refine .inr (Bool.eq_false_iff.mpr fun hunlocked => ?_)
      exact not_limitsBind hlocate hunlocked hbind
    · rintro (hnil | hlocked)
      · cases hnil
      · intro config above addIndex thing flags _ hflags _ haccept
        have hunlocked := (queryLimits_of_queryAdd hflags haccept).1
        rw [hlocked] at hunlocked
        cases hunlocked

/-- A bag that can hold as much as the backpack it lies in. -/
def bag : ThingTree := .node { ref := 1, cls := .container, maxSize := 20 } []

def backpack : ThingTree := .node { ref := 0, cls := .container, maxSize := 20 } [bag]

theorem limitsBind_backpack : LimitsBind backpack [] backpack [] :=
  (limitsBind_iff rfl).mpr (.inl rfl)

/-- The bag takes a coin though the backpack is full. -/
theorem bag_exceeds_limit :
    Within ⟨1, 1⟩ backpack ∧
      queryAdd ⟨1, 1⟩ bag [Cylinder.ofContainer backpack] none (.node { ref := 2, cls := .item } [])
        {} = .noError ∧
      ¬ Within ⟨1, 1⟩ (backpack.add [0] (.node { ref := 2, cls := .item } [])) := by
  unfold Within queryAdd queryLimits
  simp only [getItemHoldingCount_eq, getContainerHoldingCount_eq]
  decide

end Container
end OTServBR.Limits
