import Mathlib.Algebra.BigOperators.Group.List.Basic
import Mathlib.Data.UInt
import Mathlib.Tactic.Abel
import OTServBR.Container.Basic

/-! # The total weight

A container whose items all have it as their parent weighs what they weigh: the
difference that an operation makes reaches every container around the changed
one. A container that hides its parent breaks this for the one it lies in.
-/

namespace OTServBR

namespace HolderTree

variable {types : Items}

/-- Every container keeps the sum of what its items weigh. -/
def Balanced (types : Items) : HolderTree → Prop :=
  RoseTree.All fun h itemlist =>
    h.item.cls.isContainer → h.totalWeight = (itemlist.map (getWeight types)).sum

/-- No item hides the container it lies in. -/
def Plain : HolderTree → Prop :=
  RoseTree.All fun _ itemlist => ∀ t ∈ itemlist, t.label.item.cls.hiddenParents = 0

instance (t : HolderTree) : Decidable (Balanced types t) :=
  inferInstanceAs (Decidable (RoseTree.All _ t))

instance (t : HolderTree) : Decidable (Plain t) := inferInstanceAs (Decidable (RoseTree.All _ t))

/-- An item and its direct contents: only containers hold items, and they know their weight. -/
structure Knows (types : Items) (h : Holder) (itemlist : List HolderTree) : Prop where
  sum_eq : h.item.cls.isContainer → h.totalWeight = (itemlist.map (getWeight types)).sum
  eq_nil : h.item.cls.isContainer = false → itemlist = []

abbrev Weighed (types : Items) : HolderTree → Prop := RoseTree.All (Knows types)

theorem Weighed.balanced {t : HolderTree} (h : Weighed types t) : Balanced types t :=
  h.imp fun _ _ hknows => hknows.sum_eq

/-- What is asked of a change: its difference is what it makes of the sum. -/
structure Change.Fair (types : Items) (itemlist : List HolderTree) (change : Change) : Prop where
  sum_eq : (change.itemlist.map (getWeight types)).sum =
    (itemlist.map (getWeight types)).sum + change.diff
  weighed : ∀ t ∈ change.itemlist, Weighed types t
  released : ∀ t ∈ change.released, Weighed types t

theorem getWeight_container {h : Holder} {itemlist : List HolderTree}
    (hcontainer : h.item.cls.isContainer) :
    getWeight types (.node h itemlist) = h.item.getWeight types + h.totalWeight := by
  rw [getWeight, RoseTree.label_node, if_pos hcontainer]

theorem sum_set {l : List HolderTree} {k : ℕ} {t t' : HolderTree} {diff : UInt32}
    (hk : l[k]? = some t) (ht : getWeight types t' = getWeight types t + diff) :
    ((l.set k t').map (getWeight types)).sum = (l.map (getWeight types)).sum + diff := by
  obtain ⟨hlt, hget⟩ := List.getElem?_eq_some_iff.mp hk
  have hlt' : k < (l.map (getWeight types)).length := by rwa [List.length_map]
  rw [List.map_set, List.sum_set', dif_pos hlt', List.getElem_map, hget, ht]
  abel

/-- A container that takes over a difference weighs that much more. -/
theorem weighed_node {h : Holder} {itemlist itemlist' : List HolderTree} {diff : UInt32}
    (hcontainer : h.item.cls.isContainer) (hknows : Knows types h itemlist)
    (hsum : (itemlist'.map (getWeight types)).sum = (itemlist.map (getWeight types)).sum + diff)
    (hweighed : ∀ t ∈ itemlist', Weighed types t) :
    Weighed types (.node { h with totalWeight := h.totalWeight + diff } itemlist') ∧
      getWeight types (.node { h with totalWeight := h.totalWeight + diff } itemlist') =
        getWeight types (.node h itemlist) + diff := by
  refine ⟨.node ⟨fun _ => ?_, fun hnot => ?_⟩ hweighed, ?_⟩
  · rw [hsum, ← hknows.sum_eq hcontainer]
  · exact absurd hcontainer (Bool.eq_false_iff.mp hnot)
  · have hcontainer' :
        ({ h with totalWeight := h.totalWeight + diff } : Holder).item.cls.isContainer := hcontainer
    rw [getWeight_container hcontainer', getWeight_container hcontainer, add_assoc]

/-- A fair change of one container leaves all of them weighed. -/
theorem Weighed.updateAt {f : Holder → List HolderTree → Option Change} {path : List ℕ}
    {t : HolderTree} {u : Updated}
    (hf : ∀ h itemlist change, (∀ t ∈ itemlist, Weighed types t) → f h itemlist = some change →
      change.Fair types itemlist)
    (ht : Weighed types t) (hplain : Plain t) (hu : t.updateAt f path = some u) :
    (Weighed types u.tree ∧ getWeight types u.tree = getWeight types t + u.change.diff) ∧
      u.pending = t.label.item.cls.hiddenParents ∧ ∀ t ∈ u.change.released, Weighed types t := by
  induction path generalizing t u with
  | nil =>
    obtain ⟨h, itemlist⟩ := t
    obtain ⟨hknows, hitems⟩ := ht
    rw [HolderTree.updateAt] at hu
    split at hu
    · next hcontainer =>
      obtain ⟨change, hchange, rfl⟩ := Option.map_eq_some_iff.mp hu
      have hfair := hf h itemlist change hitems hchange
      exact ⟨weighed_node hcontainer hknows hfair.sum_eq hfair.weighed, rfl, hfair.released⟩
    · cases hu
  | cons k path ih =>
    obtain ⟨h, itemlist⟩ := t
    obtain ⟨hknows, hitems⟩ := ht
    obtain ⟨hhidden, hplains⟩ := hplain
    rw [HolderTree.updateAt] at hu
    split at hu
    · cases hu
    · next child hchild =>
      obtain ⟨v, hv, rfl⟩ := Option.map_eq_some_iff.mp hu
      have hmem := List.mem_of_getElem? hchild
      obtain ⟨⟨hweighed, hweight⟩, hpending, hreleased⟩ :=
        ih (hitems child hmem) (hplains child hmem) hv
      rw [hhidden child hmem] at hpending
      have hcontainer : h.item.cls.isContainer := by
        by_contra hnot
        rw [hknows.eq_nil (Bool.eq_false_iff.mpr hnot)] at hmem
        cases hmem
      dsimp only
      rw [if_pos hpending, hpending]
      refine ⟨weighed_node hcontainer hknows (sum_set hchild hweight) ?_, rfl, hreleased⟩
      intro t ht
      obtain ht | rfl := List.mem_or_eq_of_mem_set ht
      · exact hitems t ht
      · exact hweighed

end HolderTree

/-! ## The operations -/

namespace Container

open HolderTree

variable {types : Items} {h : Holder} {itemlist : List HolderTree} {item : HolderTree}
  {change : Change}

theorem weighed_mapItem {f : Item → Item} (hf : ∀ i, (f i).cls = i.cls)
    (ht : Weighed types item) : Weighed types (mapItem f item) := by
  obtain ⟨h, l⟩ := item
  obtain ⟨hknows, hitems⟩ := ht
  refine .node ⟨fun hcontainer => hknows.sum_eq ?_, fun hnot => hknows.eq_nil ?_⟩ hitems
  · rwa [hf] at hcontainer
  · rwa [hf] at hnot

/-- An item that takes the place of another one. -/
theorem fair_set {k : ℕ} {old new : HolderTree} (hitems : ∀ t ∈ itemlist, Weighed types t)
    (hold : itemlist[k]? = some old) (hnew : Weighed types new) {released : List HolderTree}
    (hreleased : ∀ t ∈ released, Weighed types t) :
    Change.Fair types itemlist
      { itemlist := itemlist.set k new
        diff := -old.getWeight types + new.getWeight types
        released := released } := by
  constructor
  · exact sum_set hold (add_neg_cancel_left _ _).symm
  · intro t ht
    obtain ht | rfl := List.mem_or_eq_of_mem_set ht
    · exact hitems t ht
    · exact hnew
  · exact hreleased

theorem fair_cons (hitems : ∀ t ∈ itemlist, Weighed types t) (hitem : Weighed types item) :
    Change.Fair types itemlist { itemlist := item :: itemlist, diff := item.getWeight types } := by
  constructor
  · rw [List.map_cons, List.sum_cons, add_comm]
  · exact List.forall_mem_cons.mpr ⟨hitem, hitems⟩
  · exact nofun

theorem fair_append {items : List HolderTree} (hitems : ∀ t ∈ itemlist, Weighed types t)
    (hadded : ∀ t ∈ items, Weighed types t) :
    Change.Fair types itemlist
      { itemlist := itemlist ++ items, diff := (items.map (HolderTree.getWeight types)).sum } := by
  constructor
  · rw [List.map_append, List.sum_append]
  · exact fun t ht => (List.mem_append.mp ht).elim (hitems t) (hadded t)
  · exact nofun

theorem fair_addThing {index : ℤ} (hitem : Weighed types item)
    (hitems : ∀ t ∈ itemlist, Weighed types t)
    (hchange : addThing types index item h itemlist = some change) :
    change.Fair types itemlist := by
  unfold addThing at hchange
  split at hchange
  · cases hchange
  · rw [← Option.some.inj hchange]
    exact fair_cons hitems hitem

theorem fair_addItemBack (hitem : Weighed types item) (hitems : ∀ t ∈ itemlist, Weighed types t)
    (hchange : addItemBack types item h itemlist = some change) : change.Fair types itemlist := by
  have hfair := fair_append hitems (List.forall_mem_singleton.mpr hitem)
  rw [List.map_singleton, List.sum_singleton] at hfair
  rw [← Option.some.inj hchange]
  exact hfair

theorem fair_internalAddThing (hitem : Weighed types item)
    (hitems : ∀ t ∈ itemlist, Weighed types t)
    (hchange : internalAddThing types item h itemlist = some change) :
    change.Fair types itemlist := by
  rw [← Option.some.inj hchange]
  exact fair_cons hitems hitem

theorem fair_updateThing {index : ℕ} {itemId : UInt16} {count : UInt32}
    (hitems : ∀ t ∈ itemlist, Weighed types t)
    (hchange : updateThing types index itemId count h itemlist = some change) :
    change.Fair types itemlist := by
  unfold updateThing at hchange
  split at hchange
  · cases hchange
  · next old hold =>
    rw [← Option.some.inj hchange]
    refine fair_set hitems hold (weighed_mapItem ?_ (hitems old (List.mem_of_getElem? hold))) nofun
    intro i
    rw [Item.cls_setSubType, Item.cls_setID]

theorem fair_replaceThing {index : ℕ} (hitem : Weighed types item)
    (hitems : ∀ t ∈ itemlist, Weighed types t)
    (hchange : replaceThing types index item h itemlist = some change) :
    change.Fair types itemlist := by
  unfold replaceThing at hchange
  split at hchange
  · cases hchange
  · next old hold =>
    rw [← Option.some.inj hchange]
    exact fair_set hitems hold hitem
      (List.forall_mem_singleton.mpr (hitems old (List.mem_of_getElem? hold)))

theorem fair_removeThing {index : ℕ} {count : UInt32} (hitems : ∀ t ∈ itemlist, Weighed types t)
    (hchange : removeThing types index count h itemlist = some change) :
    change.Fair types itemlist := by
  unfold removeThing at hchange
  split at hchange
  · cases hchange
  · next old hold =>
    have hold' := hitems old (List.mem_of_getElem? hold)
    dsimp only at hchange
    split at hchange
    · rw [← Option.some.inj hchange]
      have hcls : ∀ n (i : Item), (i.setItemCount n).cls = i.cls := fun _ _ => rfl
      exact fair_set hitems hold (weighed_mapItem (hcls _) hold') nofun
    · rw [← Option.some.inj hchange]
      constructor
      · obtain ⟨hlt, hget⟩ := List.getElem?_eq_some_iff.mp hold
        have hlt' : index < (itemlist.map (HolderTree.getWeight types)).length := by
          rwa [List.length_map]
        rw [← List.CommMonoid.add_sum_eraseIdx hlt', List.getElem_map, hget, List.eraseIdx_map,
          add_neg_cancel_comm]
      · exact fun t ht => hitems t (List.mem_of_mem_eraseIdx ht)
      · exact List.forall_mem_singleton.mpr hold'

theorem weighed_unserializeChildren {nodes : List ItemNode}
    (h : ∀ node ∈ nodes, ∀ t, unserializeItem types node = some t → Weighed types t) :
    ∀ t ∈ (unserializeChildren types nodes).1, Weighed types t := by
  induction nodes with
  | nil => exact nofun
  | cons node nodes ih =>
    rw [unserializeChildren]
    split
    · exact nofun
    · next t ht =>
      exact List.forall_mem_cons.mpr ⟨h node List.mem_cons_self t ht,
        ih fun node hmem => h node (List.mem_cons_of_mem _ hmem)⟩

/-- A loaded container weighs what was loaded into it. -/
theorem weighed_unserializeItem {node : ItemNode} {t : HolderTree}
    (ht : unserializeItem types node = some t) : Weighed types t := by
  induction node using RoseTree.induct generalizing t with
  | node label children ih =>
    have hchildren := weighed_unserializeChildren fun node hmem t => ih node hmem
    cases label with
    | none => cases ht
    | some label =>
      obtain ⟨item, maxSize⟩ := label
      rw [unserializeItem] at ht
      split at ht
      · next hcontainer =>
        split at ht
        · next itemlist hload =>
          rw [← Option.some.inj ht]
          rw [hload] at hchildren
          refine .node ⟨fun _ => rfl, fun hnot => ?_⟩ hchildren
          exact absurd hcontainer (Bool.eq_false_iff.mp hnot)
        · cases ht
      · next hcontainer =>
        rw [← Option.some.inj ht]
        exact .node ⟨fun hc => absurd hc hcontainer, fun _ => rfl⟩ nofun

theorem fair_unserializeItemNode {nodes : List ItemNode}
    (hitems : ∀ t ∈ itemlist, Weighed types t)
    (hchange : unserializeItemNode types nodes h itemlist = some change) :
    change.Fair types itemlist := by
  rw [← Option.some.inj hchange]
  exact fair_append hitems
    (weighed_unserializeChildren fun _ _ _ hload => weighed_unserializeItem hload)

end Container

/-! ## Runs -/

namespace Forest

open HolderTree

variable {types : Items} {forest forest' : Forest}

theorem weighed_update {root : ℕ} {path : List ℕ}
    {f : Holder → List HolderTree → Option Change}
    (hf : ∀ h itemlist change, (∀ t ∈ itemlist, Weighed types t) → f h itemlist = some change →
      change.Fair types itemlist)
    (hweighed : ∀ t ∈ forest, Weighed types t) (hplain : ∀ t ∈ forest, Plain t)
    (h : forest.update root path f = some forest') : ∀ t ∈ forest', Weighed types t := by
  unfold update at h
  split at h
  · cases h
  · next t ht =>
    obtain ⟨u, hu, rfl⟩ := Option.map_eq_some_iff.mp h
    have hmem := List.mem_of_getElem? ht
    obtain ⟨⟨htree, -⟩, -, hreleased⟩ := (hweighed t hmem).updateAt hf (hplain t hmem) hu
    intro t' ht'
    obtain ht' | ht' := List.mem_append.mp ht'
    · obtain ht' | rfl := List.mem_or_eq_of_mem_set ht'
      · exact hweighed t' ht'
      · exact htree
    · exact hreleased t' ht'

theorem weighed_attach {root thing : ℕ} {path : List ℕ}
    {f : HolderTree → Holder → List HolderTree → Option Change}
    (hf : ∀ item, Weighed types item → ∀ h itemlist change, (∀ t ∈ itemlist, Weighed types t) →
      f item h itemlist = some change → change.Fair types itemlist)
    (hweighed : ∀ t ∈ forest, Weighed types t) (hplain : ∀ t ∈ forest, Plain t)
    (h : forest.attach root path thing f = some forest') : ∀ t ∈ forest', Weighed types t := by
  unfold attach at h
  split at h
  · cases h
  · split at h
    · cases h
    · next item hitem =>
      obtain ⟨after, hafter, rfl⟩ := Option.map_eq_some_iff.mp h
      have hitem' := hweighed item (List.mem_of_getElem? hitem)
      have hall := weighed_update (hf item hitem') hweighed hplain hafter
      exact fun t ht => hall t (List.mem_of_mem_eraseIdx ht)

theorem weighed_apply (op : Op) (hweighed : ∀ t ∈ forest, Weighed types t)
    (hplain : ∀ t ∈ forest, Plain t) : ∀ t ∈ forest.apply types op, Weighed types t := by
  unfold apply
  cases h : forest.perform types op with
  | none => exact hweighed
  | some forest' =>
    rw [Option.getD_some]
    cases op with
    | addThing root path index thing =>
      exact weighed_attach (fun _ hitem _ _ _ => Container.fair_addThing hitem) hweighed hplain h
    | addItemBack root path item =>
      exact weighed_attach (fun _ hitem _ _ _ => Container.fair_addItemBack hitem) hweighed hplain h
    | internalAddThing root path thing =>
      exact weighed_attach (fun _ hitem _ _ _ => Container.fair_internalAddThing hitem) hweighed
        hplain h
    | updateThing root path index itemId count =>
      exact weighed_update (fun _ _ _ => Container.fair_updateThing) hweighed hplain h
    | replaceThing root path index thing =>
      exact weighed_attach (fun _ hitem _ _ _ => Container.fair_replaceThing hitem) hweighed
        hplain h
    | removeThing root path index count =>
      exact weighed_update (fun _ _ _ => Container.fair_removeThing) hweighed hplain h
    | unserializeItemNode root path nodes =>
      exact weighed_update (fun _ _ _ => Container.fair_unserializeItemNode) hweighed hplain h

theorem weighed_created (items : List (Item × UInt32)) :
    ∀ t ∈ created items, Weighed types t := by
  intro t ht
  obtain ⟨⟨item, maxSize⟩, -, rfl⟩ := List.mem_map.mp ht
  exact .node ⟨fun _ => rfl, fun _ => rfl⟩ nofun

/-- In every run in which no item that hides its parent lies in a container, all containers
keep the sum of what their items weigh. -/
theorem run_balanced (types : Items) (items : List (Item × UInt32)) (ops : List Op)
    (hplain : ∀ pre, pre <+: ops → ∀ t ∈ run types items pre, Plain t) :
    ∀ t ∈ run types items ops, Balanced types t := by
  have hweighed : ∀ t ∈ run types items ops, Weighed types t := by
    induction ops using List.reverseRecOn with
    | nil => exact weighed_created items
    | append_singleton pre op ih =>
      have hprefix := List.prefix_append pre [op]
      rw [run, List.foldl_append]
      exact weighed_apply op (ih fun pre' hpre' => hplain pre' (hpre'.trans hprefix))
        (hplain pre hprefix)
  exact fun t ht => (hweighed t ht).balanced

/-- A table where every type weighs 100. -/
def heavyTypes : Items where
  items := fun _ => { weight := 100 }
  reverseItemMap := fun _ => none

/-- A bag, a box and a coin. -/
def bagBoxCoin : List (Item × UInt32) :=
  [({ cls := .container, id := 1987 }, 8), ({ cls := .container, id := 1738 }, 8),
    ({ cls := .item, id := 2148 }, 0)]

/-- The coin is put into the box and the box into the bag. -/
def coinInBoxInBag : Forest := run heavyTypes bagBoxCoin [.addThing 1 [] 0 2, .addThing 0 [] 0 1]

theorem run_balanced_bagBoxCoin :
    Balanced heavyTypes (coinInBoxInBag.get ⟨0, by decide⟩) := by
  have hplain : ∀ pre ∈ [Op.addThing 1 [] 0 2, .addThing 0 [] 0 1].inits,
      ∀ t ∈ run heavyTypes bagBoxCoin pre, Plain t := by decide
  exact run_balanced heavyTypes bagBoxCoin _
    (fun pre hpre => hplain pre ((List.mem_inits _ _).mpr hpre)) _ (List.get_mem _ _)

/-- A locker, an inbox and a coin. -/
def lockerInboxCoin : List (Item × UInt32) :=
  [({ cls := .depotLocker, id := 2589 }, 30), ({ cls := .inbox, id := 14404 }, 30),
    ({ cls := .item, id := 2148 }, 0)]

/-- The inbox is put into the locker, then the coin into the inbox: the locker does not learn
of the coin, since it is not the parent of the inbox. -/
theorem locker_unbalanced :
    ¬∀ (types : Items) (items : List (Item × UInt32)) (ops : List Op),
      ∀ t ∈ run types items ops, Balanced types t := by
  intro h
  have hlocker := h heavyTypes lockerInboxCoin [.internalAddThing 0 [] 1, .addThing 0 [0] 0 1]
  revert hlocker
  decide

end Forest

end OTServBR
