import OTServBR.Container.Limits
import OTServBR.Lib.LevelOrder

/-! # The container iterator

An iterator keeps the containers to go through, none of them empty, and a
position in the first. What it has still to visit is a queue of items, so that
it goes through a container level by level, and every loop over it is a loop
over the items of the container.
-/

namespace OTServBR.Limits

open LevelOrder ThingTree

structure ContainerIterator where
  /-- The member `over`. -/
  containers : List ThingTree := []
  /-- The position in the first container. -/
  cur : ℕ := 0

/-- What the constructor of an item says of having a list of items. -/
def entered (a : Thing) : Bool := a.cls.isContainer

/-- The items of a container, each in front of what it holds itself. -/
def ThingTree.items (t : ThingTree) : List ThingTree := nodes entered t.itemlist

namespace ContainerIterator

/-- `Container::iterator` -/
def start (t : ThingTree) : ContainerIterator :=
  if t.itemlist ≠ [] then { containers := [t], cur := 0 } else {}

def hasNext (it : ContainerIterator) : Bool := it.containers ≠ []

/-- The item at `cur`, if there is one. -/
def get (it : ContainerIterator) : Option ThingTree :=
  it.containers.head?.bind (·.itemlist[it.cur]?)

/-- `++cur`, and over to the next container at the end of the first. -/
def next (it : ContainerIterator) : ContainerIterator :=
  match it.containers with
  | [] => it
  | front :: rest =>
    let cur := it.cur + 1
    if cur = front.itemlist.length then
      { containers := rest, cur := if rest ≠ [] then 0 else cur }
    else { it with cur := cur }

/-- There is no outcome where `cur` points to nothing. -/
def advance (it : ContainerIterator) : Option ContainerIterator :=
  it.get.map fun i =>
    let it := if i.isContainer ∧ i.itemlist ≠ [] then
      { it with containers := it.containers ++ [i] } else it
    it.next

/-! ### Loops over an iterator -/

section Loop

variable {σ : Type} (body : σ → ThingTree → σ × Bool)

/-- A loop whose body also says whether it returns, with a number of tests of `hasNext`. -/
def loop : ℕ → ContainerIterator → σ → Option σ
  | 0, _, _ => none
  | rounds + 1, it, s =>
    if it.hasNext then
      it.get.bind fun item =>
        let out := body s item
        if out.2 then some out.1 else it.advance.bind fun it => loop rounds it out.1
    else some s

/-- The same over a list. -/
def loopList : List ThingTree → σ → σ
  | [], s => s
  | item :: l, s =>
    let out := body s item
    if out.2 then out.1 else loopList l out.1

end Loop

/-- The items in the order in which they are visited. -/
def visited (rounds : ℕ) (t : ThingTree) : Option (List ThingTree) :=
  loop (fun l item => (l ++ [item], false)) rounds (start t) []

def getItemHoldingCount (rounds : ℕ) (t : ThingTree) : Option UInt32 :=
  loop (fun counter _ => (counter + 1, false)) rounds (start t) 0

def getContainerHoldingCount (rounds : ℕ) (t : ThingTree) : Option UInt32 :=
  loop (fun counter item => (if item.isContainer then counter + 1 else counter, false)) rounds
    (start t) 0

def isHoldingItem (rounds : ℕ) (t : ThingTree) (ref : ℕ) : Option Bool :=
  loop (fun _ item => if item.label.ref = ref then (true, true) else (false, false)) rounds
    (start t) false

/-! ### What is still to be visited -/

/-- The items that an iterator has still to go through without entering any. -/
def pending (it : ContainerIterator) : List ThingTree :=
  match it.containers with
  | [] => []
  | front :: rest => front.itemlist.drop it.cur ++ rest.flatMap itemlist

theorem pending_eq {it : ContainerIterator} {front : ThingTree} {rest : List ThingTree}
    (hfront : it.containers = front :: rest) :
    it.pending = front.itemlist.drop it.cur ++ rest.flatMap itemlist := by
  rw [pending, hfront]

/-- No container is empty, and there is an item at the position. -/
structure Valid (it : ContainerIterator) : Prop where
  nonempty : ∀ t ∈ it.containers, t.itemlist ≠ []
  lt : ∀ t ∈ it.containers.head?, it.cur < t.itemlist.length

theorem valid_start (t : ThingTree) : Valid (start t) := by
  unfold start
  split_ifs with hnil
  · constructor
    · simpa using hnil
    · simpa [List.length_pos_iff] using hnil
  · constructor <;> simp

theorem pending_start (t : ThingTree) : (start t).pending = t.itemlist := by
  unfold start
  split_ifs with hnil
  · simp [pending]
  · simpa [pending] using hnil

namespace Valid

variable {it : ContainerIterator} (h : it.Valid)

include h

theorem lt_of_eq {front : ThingTree} {rest : List ThingTree}
    (hfront : it.containers = front :: rest) : it.cur < front.itemlist.length :=
  h.lt front (by rw [hfront]; rfl)

theorem pending_eq_cons {front : ThingTree} {rest : List ThingTree}
    (hfront : it.containers = front :: rest) :
    it.pending = front.itemlist.get ⟨it.cur, h.lt_of_eq hfront⟩ ::
      (front.itemlist.drop (it.cur + 1) ++ rest.flatMap itemlist) := by
  rw [pending_eq hfront, List.drop_eq_getElem_cons (h.lt_of_eq hfront), List.cons_append]
  rfl

theorem hasNext_iff : it.hasNext = true ↔ it.pending ≠ [] := by
  unfold hasNext
  cases hcontainers : it.containers with
  | nil => simp [pending, hcontainers]
  | cons front rest => simp [h.pending_eq_cons hcontainers]

theorem get_eq : it.get = it.pending.head? := by
  unfold get
  cases hcontainers : it.containers with
  | nil => simp [pending, hcontainers]
  | cons front rest => simp [h.pending_eq_cons hcontainers, h.lt_of_eq hcontainers]

/-- One step over a container's end or within it. -/
theorem next {front : ThingTree} {rest : List ThingTree} (hfront : it.containers = front :: rest) :
    it.next.Valid ∧ it.next.pending = it.pending.tail := by
  have hlt := h.lt_of_eq hfront
  rw [h.pending_eq_cons hfront, List.tail_cons]
  unfold ContainerIterator.next
  rw [hfront]
  dsimp only
  by_cases hend : it.cur + 1 = front.itemlist.length
  · have hnonempty : ∀ t ∈ rest, t.itemlist ≠ [] :=
      fun t ht => h.nonempty t (hfront ▸ List.mem_cons_of_mem front ht)
    rw [if_pos hend, hend, List.drop_length, List.nil_append]
    constructor
    · constructor
      · exact hnonempty
      · intro t ht
        have hmem : t ∈ rest := List.mem_of_mem_head? ht
        have hrest : rest ≠ [] := List.ne_nil_of_mem hmem
        simpa [hrest, List.length_pos_iff] using hnonempty t hmem
    · cases rest with
      | nil => rfl
      | cons t rest => simp [pending]
  · rw [if_neg hend]
    constructor
    · constructor
      · rw [← hfront]
        exact h.nonempty
      · intro t ht
        obtain rfl := Option.some.inj ht
        exact Nat.lt_of_le_of_ne hlt hend
    · simp [pending]

/-- An advance takes the item at the position and queues what it holds. -/
theorem advance {item : ThingTree} {l : List ThingTree} (hpending : it.pending = item :: l) :
    ∃ it', it.advance = some it' ∧ it'.Valid ∧ it'.pending = l ++ kids entered item := by
  have hget : it.get = some item := by
    rw [h.get_eq, hpending]
    rfl
  obtain ⟨front, rest, hfront⟩ : ∃ front rest, it.containers = front :: rest := by
    cases hcontainers : it.containers with
    | nil => simp [pending, hcontainers] at hpending
    | cons front rest => exact ⟨front, rest, rfl⟩
  have hlt := h.lt_of_eq hfront
  unfold ContainerIterator.advance
  rw [hget, Option.map_some]
  refine ⟨_, rfl, ?_⟩
  dsimp only
  split_ifs with hqueue
  · have hvalid : Valid { it with containers := it.containers ++ [item] } := by
      constructor
      · intro t ht
        rcases List.mem_append.mp ht with ht | ht
        · exact h.nonempty t ht
        · rw [List.mem_singleton.mp ht]
          exact hqueue.2
      · simpa [hfront] using hlt
    have hqueued : it.containers ++ [item] = front :: (rest ++ [item]) := by rw [hfront]; rfl
    obtain ⟨hnext, heq⟩ := hvalid.next hqueued
    refine ⟨hnext, heq.trans ?_⟩
    have hkids : kids entered item = item.itemlist := if_pos hqueue.1
    have hall : pending { it with containers := it.containers ++ [item] } =
        it.pending ++ item.itemlist := by
      simp [pending, hfront]
    rw [hall, hpending, hkids]
    rfl
  · obtain ⟨hnext, heq⟩ := h.next hfront
    have hkids : kids entered item = [] := by
      unfold kids
      split_ifs with hentered
      · by_contra hnil
        exact hqueue ⟨hentered, hnil⟩
      · rfl
    refine ⟨hnext, ?_⟩
    rw [heq, hpending, hkids, List.append_nil]
    rfl

/-- A loop over an iterator is one over the items that it visits, if there are enough rounds. -/
theorem loop_eq {σ : Type} (body : σ → ThingTree → σ × Bool) {rounds : ℕ} {s : σ}
    (hrounds : (queueOrder entered it.pending).length < rounds) :
    loop body rounds it s = some (loopList body (queueOrder entered it.pending) s) := by
  induction rounds generalizing it s with
  | zero => cases hrounds
  | succ rounds ih =>
    rw [loop]
    cases hpending : it.pending with
    | nil =>
      have hend : ¬it.hasNext = true := by simp [h.hasNext_iff, hpending]
      rw [if_neg hend, queueOrder, loopList]
    | cons item l =>
      obtain ⟨it', hadvance, hvalid, hrest⟩ := h.advance hpending
      have hnext : it.hasNext = true := by simp [h.hasNext_iff, hpending]
      rw [hpending, queueOrder, List.length_cons, ← hrest] at hrounds
      rw [if_pos hnext, h.get_eq, hpending, queueOrder, loopList, List.head?_cons, Option.bind_some]
      dsimp only
      split_ifs
      · rfl
      · rw [hadvance, Option.bind_some, ih hvalid (by omega), hrest]

end Valid

/-! ### The loops over a container -/

theorem loopList_visited (l s : List ThingTree) :
    loopList (fun l item => (l ++ [item], false)) l s = s ++ l := by
  induction l generalizing s with
  | nil => rw [loopList, List.append_nil]
  | cons item l ih =>
    rw [loopList, if_neg Bool.false_ne_true, ih, List.append_assoc, List.singleton_append]

/-- The bodies that count. -/
theorem loopList_count (q : ThingTree → Bool) (body : UInt32 → ThingTree → UInt32 × Bool)
    (hbody : ∀ counter item, body counter item = (if q item then counter + 1 else counter, false))
    (l : List ThingTree) (counter : UInt32) :
    loopList body l counter = counter + UInt32.ofNat (l.countP q) := by
  induction l generalizing counter with
  | nil => simp [loopList]
  | cons item l ih =>
    rw [loopList, hbody, if_neg Bool.false_ne_true, ih]
    cases hitem : q item with
    | false => simp [hitem]
    | true => simp [hitem, UInt32.ofNat_add, UInt32.add_assoc, UInt32.add_comm 1]

theorem loopList_isHoldingItem (ref : ℕ) (l : List ThingTree) :
    loopList (fun _ item => if item.label.ref = ref then (true, true) else (false, false)) l false =
      l.any (fun item => item.label.ref = ref) := by
  induction l with
  | nil => rfl
  | cons item l ih =>
    rw [loopList, List.any_cons]
    by_cases href : item.label.ref = ref
    · simp [href]
    · simp [href, ih]

end ContainerIterator

namespace ThingTree

/-- The walk of the limits is the queue of the items. -/
theorem visit_eq_queueOrder (cur : List ThingTree) (queued : List (List ThingTree)) :
    visit cur queued = queueOrder entered (cur ++ queued.flatten) := by
  fun_induction visit cur queued with
  | case1 => rw [List.flatten_nil, List.append_nil, queueOrder]
  | case2 next queued ih => rw [ih, List.flatten_cons, List.nil_append]
  | case3 item cur queued ih =>
    have hkids : (if item.isContainer ∧ item.itemlist ≠ [] then [item.itemlist] else []).flatten =
        kids entered item := by
      unfold kids
      split_ifs with hqueue hentered hentered
      · exact List.append_nil _
      · exact absurd hqueue.1 hentered
      · by_contra hnil
        exact hqueue ⟨hentered, fun h => hnil h.symm⟩
      · rfl
    simp only [dite_eq_ite] at ih
    rw [ih, List.flatten_append, hkids, List.cons_append, queueOrder, List.append_assoc]

theorem iterator_eq_levels (t : ThingTree) : t.iterator = (levels entered t.itemlist).flatten := by
  rw [iterator, visit_eq_queueOrder, List.flatten_nil, List.append_nil, queueOrder_eq]

theorem iterator_perm (t : ThingTree) : t.iterator.Perm t.items := by
  rw [iterator_eq_levels, ← queueOrder_eq]
  exact queueOrder_perm t.itemlist

mutual

/-- An item is the wanted one or holds it. -/
def holds (ref : ℕ) : ThingTree → Bool
  | .node a l => a.ref = ref || (a.cls.isContainer && holdsList ref l)

def holdsList (ref : ℕ) : List ThingTree → Bool
  | [] => false
  | t :: l => holds ref t || holdsList ref l

end

mutual

theorem any_below (ref : ℕ) : ∀ t : ThingTree,
    (decide (t.label.ref = ref) || (below entered t).any (fun item => item.label.ref = ref)) =
      holds ref t
  | .node a l => by
    rw [below, holds, RoseTree.label_node, entered]
    cases a.cls.isContainer with
    | false => rfl
    | true => rw [if_pos rfl, any_nodes ref l, Bool.true_and]

theorem any_nodes (ref : ℕ) : ∀ l : List ThingTree,
    (nodes entered l).any (fun item => item.label.ref = ref) = holdsList ref l
  | [] => by rw [nodes, holdsList, List.any_nil]
  | t :: l => by
    rw [nodes, holdsList, List.any_cons, List.any_append, ← Bool.or_assoc, any_below ref t,
      any_nodes ref l]

end

end ThingTree

open ContainerIterator

/-- From its start an iterator visits the items of a container once each and level by level,
whatever the containers and the empty ones among them, so that what loops over it is what a
recursion over the items gives. The loops come to their end: any number of rounds above that of
the items is enough. -/
theorem containerIterator_exact (t : ThingTree) (more : ℕ) :
    let rounds := t.items.length + 1 + more
    visited rounds t = some (levels entered t.itemlist).flatten ∧
      (levels entered t.itemlist).flatten.Perm t.items ∧
      ContainerIterator.getItemHoldingCount rounds t =
        some (UInt32.ofNat (heldList (fun _ => true) t.itemlist)) ∧
      ContainerIterator.getContainerHoldingCount rounds t =
        some (UInt32.ofNat (heldList (fun a => a.cls.isContainer) t.itemlist)) ∧
      ∀ ref, isHoldingItem rounds t ref = some (holdsList ref t.itemlist) := by
  intro rounds
  have hperm : (levels entered t.itemlist).flatten.Perm t.items :=
    t.iterator_eq_levels ▸ t.iterator_perm
  have hlevels : queueOrder entered (start t).pending = t.iterator := by
    rw [pending_start, queueOrder_eq, t.iterator_eq_levels]
  have hrounds : (queueOrder entered (start t).pending).length < rounds := by
    rw [hlevels, t.iterator_perm.length_eq]
    omega
  refine ⟨?_, hperm, ?_, ?_, ?_⟩
  · rw [visited, (valid_start t).loop_eq _ hrounds, loopList_visited, hlevels, List.nil_append,
      t.iterator_eq_levels]
  · have hcount := loopList_count (fun _ => true) (fun counter _ => (counter + 1, false))
      (fun _ _ => rfl) t.iterator 0
    rw [ContainerIterator.getItemHoldingCount, (valid_start t).loop_eq _ hrounds, hlevels, hcount,
      ← getItemHoldingCount_eq]
    simp [ThingTree.getItemHoldingCount]
  · rw [ContainerIterator.getContainerHoldingCount, (valid_start t).loop_eq _ hrounds,
      loopList_count isContainer _ (fun _ _ => rfl), hlevels, ← getContainerHoldingCount_eq]
    simp [ThingTree.getContainerHoldingCount, List.countP_eq_length_filter]
  · intro ref
    rw [isHoldingItem, (valid_start t).loop_eq _ hrounds, loopList_isHoldingItem, hlevels,
      t.iterator_perm.any_eq, items, any_nodes]

end OTServBR.Limits
