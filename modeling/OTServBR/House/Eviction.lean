import OTServBR.House.Collect

/-! # Nothing is lost

Where no trash holder destroys what a piece of furniture is turned into, all
that is to go comes to the inbox once, with its own contents, and everything
else stays where it is. Where one does, the loop that moves the items comes to
a null pointer.
-/

namespace OTServBR

namespace Tile.Indexed

variable {types : Items} {t : Tile} {i : TileItem}

theorem allItems_removeThing_of_mem (h : Indexed types True t) (hi : i ∈ t.allItems) :
    (t.removeThing types (.item i) (UInt32.ofNat i.item.getItemCount)).allItems =
      t.allItems.filter (·.ref != i.ref) := by
  rcases List.mem_append.1 hi with hground | hvector
  · obtain ⟨n, hindex, -⟩ := h.getThing_getThingIndex (mem_things_item.2 hi)
    have hsome : t.ground = some i := Option.mem_toList.1 hground
    have hfound : t.getThingIndex types (.item i) ≠ -1 := by omega
    rw [Tile.removeThing, Tile.removeItem, if_neg hfound, hsome, Option.map_some, if_pos rfl]
    exact h.allItems_removeGround hsome
  · obtain ⟨k, hk⟩ := List.getElem?_of_mem hvector
    exact h.allItems_removeThing hk

end Tile.Indexed

namespace Depot

open Tile

variable {c : Catalogue} {teleport : Teleports} {s s' : Estate} {p : Holder} {i : TileItem}

/-! ## Moving an item -/

/-- What the moves need and keep. -/
structure Sound (c : Catalogue) (s : Estate) : Prop where
  indexed : ∀ n, Indexed c.types True (s.tiles n)
  coherent : s.custody.Coherent TileItem.ref

theorem Kept.sound (h : Kept c s) : Sound c s := ⟨h.indexed, h.coherent⟩

/-- An item leaves its place. -/
theorem held_takeItem (h : Sound c s) (hp : p ≠ .inbox) (hi : i ∈ s.held p) (q : Holder)
    (hq : q ≠ .inbox) :
    (takeItem c s i p).held q = s.custody.rest TileItem.ref p i.ref q := by
  unfold Custody.rest
  cases p with
  | inbox => exact absurd rfl hp
  | tile n =>
    by_cases hqn : q = .tile n
    · subst hqn
      rw [Function.update_self]
      exact (held_setTile_self _).trans ((h.indexed n).allItems_removeThing_of_mem hi)
    · rw [Function.update_of_ne hqn]
      exact held_setTile_of_ne hqn _
  | container ref =>
    by_cases hqn : q = .container ref
    · subst hqn
      rw [Function.update_self]
      exact Function.update_self ..
    · rw [Function.update_of_ne hqn]
      cases q with
      | tile m => rfl
      | container ref' =>
        exact Function.update_of_ne (fun heq => hqn (congrArg _ heq)) ..
      | inbox => rfl

theorem parent_takeItem {r : ℕ} (hr : r ≠ i.ref) : (takeItem c s i p).parent r = s.parent r := by
  cases p with
  | inbox => rfl
  | tile n => exact if_neg (by simpa using hr)
  | container ref => rfl

theorem inbox_takeItem (hp : p ≠ .inbox) : (takeItem c s i p).inbox = s.inbox := by
  cases p with
  | inbox => exact absurd rfl hp
  | tile n => rfl
  | container ref => rfl

theorem indexed_takeItem (h : Sound c s) (n : ℕ) :
    Indexed c.types True ((takeItem c s i p).tiles n) := by
  cases p with
  | inbox => exact h.indexed n
  | container ref => exact h.indexed n
  | tile m =>
    by_cases hn : n = m
    · subst hn
      have htile : (takeItem c s i (.tile n)).tiles n = (s.tiles n).removeThing c.types (.item i)
          (UInt32.ofNat i.item.getItemCount) := Function.update_self ..
      rw [htile]
      exact (h.indexed n).removeThing _ _
    · have htile : (takeItem c s i (.tile m)).tiles n = s.tiles n := Function.update_of_ne hn ..
      rw [htile]
      exact h.indexed n

/-- A move is one of a thing in custody. -/
theorem moveToInbox_eq (h : Sound c s) (hp : p ≠ .inbox) (hi : i ∈ s.held p) :
    ∃ s', moveToInbox c s (some i.ref) = some s' ∧ Sound c s' ∧
      s'.custody = s.custody.transfer TileItem.ref .inbox p i := by
  have hparent : s.parent i.ref = some p := h.coherent.parent p i hi
  have hfind : (s.held p).find? (·.ref == i.ref) = some i := Custody.find?_held h.coherent hi
  refine ⟨{ takeItem c s i p with
    inbox := i :: (takeItem c s i p).inbox
    parent := Function.update (takeItem c s i p).parent i.ref (some .inbox) }, ?_, ?_⟩
  · rw [moveToInbox, Option.bind_some, hparent, Option.map_some, internalMoveItem, hfind]
  set s' : Estate := { takeItem c s i p with
    inbox := i :: (takeItem c s i p).inbox
    parent := Function.update (takeItem c s i p).parent i.ref (some .inbox) }
  have hheld : s'.custody.held = (s.custody.transfer TileItem.ref .inbox p i).held := by
    ext1 q
    by_cases hq : q = .inbox
    · subst hq
      rw [Custody.held_transfer_self hp]
      exact congrArg (i :: ·) (inbox_takeItem hp)
    · rw [Custody.held_transfer_of_ne h.coherent hi hq, ← Custody.rest_eq h.coherent hi,
        ← held_takeItem h hp hi q hq]
      cases q with
      | inbox => exact absurd rfl hq
      | tile n => rfl
      | container ref => rfl
  have hparents : s'.custody.parent = (s.custody.transfer TileItem.ref .inbox p i).parent := by
    ext1 r
    by_cases hr : r = i.ref
    · rw [hr, Custody.parent_transfer_self]
      exact Function.update_self ..
    · rw [Custody.parent_transfer hr]
      exact (Function.update_of_ne hr ..).trans (parent_takeItem hr)
  have hcustody : s'.custody = s.custody.transfer TileItem.ref .inbox p i := by
    rw [← show (⟨s'.custody.held, s'.custody.parent⟩ : Custody Holder ℕ TileItem) = s'.custody
      from rfl, hheld, hparents]
  exact ⟨⟨fun n => indexed_takeItem h n, hcustody ▸ Custody.coherent_transfer h.coherent hi hp⟩,
    hcustody⟩

/-- The loop comes to nothing when it comes to a lost item. -/
theorem foldlM_moveToInbox_of_lost {r : ℕ} {l : List (Option ℕ)} (hr : s.parent r = none)
    (hmem : some r ∈ l) : l.foldlM (moveToInbox c) s = none := by
  induction l generalizing s with
  | nil => cases hmem
  | cons x l ih =>
    rw [List.foldlM_cons]
    by_cases hx : some r = x
    · subst hx
      rw [moveToInbox, Option.bind_some, hr]
      rfl
    · cases hmove : moveToInbox c s x with
      | none => rfl
      | some s' =>
        refine ih ?_ (List.mem_of_ne_of_mem hx hmem)
        obtain ⟨k, rfl, hmove⟩ := Option.bind_eq_some_iff.1 hmove
        obtain ⟨p, -, rfl⟩ := Option.map_eq_some_iff.1 hmove
        have hne : r ≠ k := fun heq => hx (congrArg some heq)
        unfold internalMoveItem
        split
        · exact hr
        · next i hi =>
          have href : i.ref = k := by simpa using List.find?_some hi
          exact (Function.update_of_ne hne ..).trans ((parent_takeItem (href ▸ hne)).trans hr)

/-! ## All goods -/

/-- What has come to the inbox, and what has stayed where it was. -/
structure Delivered (c : Catalogue) (ns : List ℕ) (s s' : Estate) : Prop where
  inbox : ∃ made : ℕ → List (TileItem × TileItem),
    (∀ n ∈ ns, (made n).map Prod.fst = (s.tiles n).items.items ∧ ∀ p ∈ made n, Becomes c p.1 p.2) ∧
    s'.inbox.Perm ((ns.flatMap made).flatMap (goods c s) ++ s.inbox)
  nodup : (s'.inbox.map (·.ref)).Nodup
  stays : ∀ n ∈ ns, (s'.tiles n).allItems.Perm
    ((s.tiles n).ground.toList ++ (s.tiles n).items.items.filter (!goes c ·.item))
  elsewhere : ∀ n, n ∉ ns → (s'.tiles n).allItems = (s.tiles n).allItems
  opened : ∀ n ∈ ns, ∀ i ∈ (s.tiles n).items.items, opens c i.item → s'.contents i.ref = []
  contents : ∀ r, (∀ n ∈ ns, ∀ i ∈ (s.tiles n).items.items, opens c i.item → i.ref ≠ r) →
    s'.contents r = s.contents r

section Goods

variable {ns : List ℕ} {made : ℕ → List (TileItem × TileItem)} {w w' : Walk} {a : TileItem}

/-- The addresses of all goods. -/
def goodsRefs (c : Catalogue) (s : Estate) (ns : List ℕ) (made : ℕ → List (TileItem × TileItem)) :
    List ℕ :=
  ((ns.flatMap made).flatMap (goods c s)).map TileItem.ref

/-- Goods come out of an opened container or take the place of an item on a tile. -/
theorem mem_goods_iff : a ∈ (ns.flatMap made).flatMap (goods c s) ↔
    (∃ n ∈ ns, ∃ q ∈ made n, opens c q.1.item = true ∧ a ∈ s.contents q.1.ref) ∨
      ∃ n ∈ ns, ∃ q ∈ made n, goes c q.1.item = true ∧ a = q.2 := by
  simp only [List.mem_flatMap, goods, List.mem_append, List.mem_ite_nil_right, List.mem_singleton]
  constructor
  · rintro ⟨q, ⟨n, hn, hq⟩, hopen | hgoes⟩
    · exact .inl ⟨n, hn, q, hq, hopen⟩
    · exact .inr ⟨n, hn, q, hq, hgoes⟩
  · rintro (⟨n, hn, q, hq, hopen⟩ | ⟨n, hn, q, hq, hgoes⟩)
    · exact ⟨q, ⟨n, hn, hq⟩, .inl hopen⟩
    · exact ⟨q, ⟨n, hn, hq⟩, .inr hgoes⟩

theorem flatMap_goes (l : List (TileItem × TileItem)) :
    (l.flatMap fun q => if goes c q.1.item then [q.2] else []) =
      (l.filter (goes c ·.1.item)).map Prod.snd := by
  induction l with
  | nil => rfl
  | cons q l ih =>
    rw [List.flatMap_cons, ih, List.filter_cons]
    split_ifs <;> rfl

namespace ClearedTiles

variable (h : ClearedTiles c ns made w w')

include h

theorem mem_fst {n : ℕ} (hn : n ∈ ns) {q : TileItem × TileItem} (hq : q ∈ made n) :
    q.1 ∈ (w.state.tiles n).items.items :=
  h.items_eq n hn ▸ List.mem_map_of_mem hq

theorem mem_snd {n : ℕ} (hn : n ∈ ns) {q : TileItem × TileItem} (hq : q ∈ made n) :
    q.2 ∈ w'.state.held (.tile n) :=
  List.mem_append_right _ ((h.items n hn).mem_iff.2 (List.mem_map_of_mem hq))

theorem held_container (r : ℕ) : w'.state.held (.container r) = w.state.contents r :=
  congrFun h.later.contents_eq r

theorem nodup_snd {n : ℕ} (hn : n ∈ ns) : (((made n).map Prod.snd).map TileItem.ref).Nodup := by
  have hrefs := (h.later.kept.indexed n).refs
  rw [allItems, List.map_append] at hrefs
  exact ((h.items n hn).map TileItem.ref).nodup_iff.1 (List.nodup_append.1 hrefs).2.1

/-- The original items of the house are different ones. -/
theorem nodup_fst (hw : Kept c w.state) (hns : ns.Nodup) :
    ((ns.flatMap made).map fun q => Holder.container q.1.ref).Nodup := by
  have hitems : (ns.flatMap made).map Prod.fst =
      ns.flatMap fun n => (w.state.tiles n).items.items := by
    rw [List.map_flatMap]
    exact List.flatMap_congr h.items_eq
  have hnd : (((ns.flatMap made).map Prod.fst).map TileItem.ref).Nodup := by
    rw [hitems]
    refine hw.coherent.nodup_flatMap Holder.tile ?_ ?_ ?_
    · exact hns.map fun m n heq => by injection heq
    · intro n _
      have hrefs := (hw.indexed n).refs
      rw [allItems, List.map_append] at hrefs
      exact (List.nodup_append.1 hrefs).2.1
    · exact fun n _ => List.subset_append_right _ _
  rw [List.map_map] at hnd
  have hplaces := hnd.map (f := Holder.container) fun m n heq => by injection heq
  rwa [List.map_map] at hplaces

/-- No item is on the list twice. -/
theorem nodup_goods (hw : Kept c w.state) (hns : ns.Nodup) :
    (goodsRefs c w.state ns made).Nodup := by
  have hcoherent := h.later.kept.coherent
  have hperm : (((ns.flatMap made).flatMap fun q =>
      if opens c q.1.item then w.state.contents q.1.ref else []) ++
      (ns.flatMap made).flatMap fun q => if goes c q.1.item then [q.2] else []).Perm
      ((ns.flatMap made).flatMap (goods c w.state)) := List.flatMap_append_perm ..
  unfold goodsRefs
  rw [← (hperm.map TileItem.ref).nodup_iff, List.map_append, List.nodup_append]
  refine ⟨?_, ?_, ?_⟩
  · refine hcoherent.nodup_flatMap (fun q => .container q.1.ref) (h.nodup_fst hw hns) ?_ ?_
    · intro q _
      split_ifs
      · exact h.held_container q.1.ref ▸ hcoherent.nodup (.container q.1.ref)
      · exact List.nodup_nil
    · intro q _
      split_ifs
      · exact fun b hb => (congrArg (b ∈ ·) (h.held_container q.1.ref)).mpr hb
      · exact List.nil_subset _
  · rw [List.flatMap_assoc]
    refine hcoherent.nodup_flatMap Holder.tile ?_ ?_ ?_
    · exact hns.map fun m n heq => by injection heq
    · intro n hn
      rw [flatMap_goes]
      exact (h.nodup_snd hn).sublist ((List.filter_sublist.map Prod.snd).map TileItem.ref)
    · intro n hn b hb
      rw [flatMap_goes] at hb
      obtain ⟨q, hq, rfl⟩ := List.mem_map.1 hb
      exact h.mem_snd hn (List.mem_of_mem_filter hq)
  · intro r hr r' hr' heq
    obtain ⟨a, ha, rfl⟩ := List.mem_map.1 hr
    obtain ⟨b, hb, rfl⟩ := List.mem_map.1 hr'
    obtain ⟨q, -, ha⟩ := List.mem_flatMap.1 ha
    rw [List.flatMap_assoc] at hb
    obtain ⟨n, hn, hb⟩ := List.mem_flatMap.1 hb
    rw [flatMap_goes] at hb
    obtain ⟨q', hq', rfl⟩ := List.mem_map.1 hb
    have hcontainer : a ∈ w'.state.held (.container q.1.ref) := by
      rw [h.held_container]
      exact (List.mem_ite_nil_right.1 ha).2
    have hplace : Holder.container q.1.ref = .tile n := hcoherent.place_eq (p := .container q.1.ref)
      (q := .tile n) hcontainer (h.mem_snd hn (List.mem_of_mem_filter hq')) heq
    cases hplace

/-- Where goods are once the list is made. -/
theorem exists_place (ha : a ∈ (ns.flatMap made).flatMap (goods c w.state)) :
    ∃ p, p ≠ .inbox ∧ a ∈ w'.state.held p := by
  rcases mem_goods_iff.1 ha with ⟨n, -, q, -, -, hmem⟩ | ⟨n, hn, q, hq, -, rfl⟩
  · refine ⟨.container q.1.ref, nofun, ?_⟩
    rw [h.held_container]
    exact hmem
  · exact ⟨.tile n, nofun, h.mem_snd hn hq⟩

theorem ref_mem_goodsRefs_iff {p : Holder} (ha : a ∈ w'.state.held p) :
    a.ref ∈ goodsRefs c w.state ns made ↔ a ∈ (ns.flatMap made).flatMap (goods c w.state) := by
  refine ⟨fun hmem => ?_, fun hmem => List.mem_map_of_mem hmem⟩
  obtain ⟨b, hb, href⟩ := List.mem_map.1 hmem
  obtain ⟨p', -, hp'⟩ := h.exists_place hb
  have heq : b = a := h.later.kept.coherent.eq_of_key (p := p') (q := p) hp' ha href
  exact heq ▸ hb

/-- The goods that a tile holds are those that there are instead of its items. -/
theorem tile_ref_mem_iff {n : ℕ} (ha : a ∈ w'.state.held (.tile n)) :
    a.ref ∈ goodsRefs c w.state ns made ↔
      n ∈ ns ∧ ∃ q ∈ made n, goes c q.1.item = true ∧ a = q.2 := by
  rw [h.ref_mem_goodsRefs_iff ha, mem_goods_iff]
  constructor
  · rintro (⟨m, -, q, -, -, hmem⟩ | ⟨m, hm, q, hq, hgoes, rfl⟩)
    · rw [← h.held_container] at hmem
      have hplace : Holder.container q.1.ref = .tile n := h.later.kept.coherent.place_eq
        (p := .container q.1.ref) (q := .tile n) hmem ha rfl
      cases hplace
    · have hplace : Holder.tile m = .tile n := h.later.kept.coherent.place_eq
        (p := .tile m) (q := .tile n) (h.mem_snd hm hq) ha rfl
      injection hplace with hmn
      subst hmn
      exact ⟨hm, q, hq, hgoes, rfl⟩
  · rintro ⟨hn, q, hq, hgoes, heq⟩
    exact .inr ⟨n, hn, q, hq, hgoes, heq⟩

/-- The goods that a container holds are there because it is opened. -/
theorem container_ref_mem_iff {r : ℕ} (ha : a ∈ w'.state.held (.container r)) :
    a.ref ∈ goodsRefs c w.state ns made ↔
      ∃ n ∈ ns, ∃ q ∈ made n, opens c q.1.item = true ∧ q.1.ref = r := by
  rw [h.ref_mem_goodsRefs_iff ha, mem_goods_iff]
  constructor
  · rintro (⟨n, hn, q, hq, hopens, hmem⟩ | ⟨n, hn, q, hq, -, rfl⟩)
    · rw [← h.held_container] at hmem
      have hplace : Holder.container q.1.ref = .container r := h.later.kept.coherent.place_eq
        (p := .container q.1.ref) (q := .container r) hmem ha rfl
      injection hplace with href
      exact ⟨n, hn, q, hq, hopens, href⟩
    · have hplace : Holder.tile n = .container r := h.later.kept.coherent.place_eq
        (p := .tile n) (q := .container r) (h.mem_snd hn hq) ha rfl
      cases hplace
  · rintro ⟨n, hn, q, hq, hopens, rfl⟩
    rw [h.held_container] at ha
    exact .inl ⟨n, hn, q, hq, hopens, ha⟩

/-- What is left on a tile. -/
theorem filter_tile {n : ℕ} (hn : n ∈ ns) :
    ((w'.state.held (.tile n)).filter (·.ref ∉ goodsRefs c w.state ns made)).Perm
      ((w.state.tiles n).ground.toList ++
        (w.state.tiles n).items.items.filter (!goes c ·.item)) := by
  have hrefs := (h.later.kept.indexed n).refs
  have hground : (w'.state.tiles n).ground.toList.filter
      (·.ref ∉ goodsRefs c w.state ns made) = (w'.state.tiles n).ground.toList := by
    refine List.filter_eq_self.2 fun g hg => ?_
    rw [decide_eq_true_iff, h.tile_ref_mem_iff (List.mem_append_left _ hg)]
    rintro ⟨-, q, hq, -, rfl⟩
    exact ref_ne_of_append hrefs hg ((h.items n hn).mem_iff.2 (List.mem_map_of_mem hq)) rfl
  have hitems : ((made n).map Prod.snd).filter (·.ref ∉ goodsRefs c w.state ns made) =
      (w.state.tiles n).items.items.filter (!goes c ·.item) := by
    have hkeep : ∀ q ∈ made n, decide (q.2.ref ∉ goodsRefs c w.state ns made) =
        !goes c q.1.item := by
      intro q hq
      rw [Bool.eq_iff_iff, decide_eq_true_iff, h.tile_ref_mem_iff (h.mem_snd hn hq),
        Bool.not_eq_true']
      constructor
      · exact fun hnot => by simpa using fun hgoes => hnot ⟨hn, q, hq, hgoes, rfl⟩
      · rintro hstays ⟨-, q', hq', hgoes, heq⟩
        have hnd := h.nodup_snd hn
        rw [List.map_map] at hnd
        obtain rfl := List.inj_on_of_nodup_map hnd hq hq' (congrArg TileItem.ref heq)
        rw [hstays] at hgoes
        cases hgoes
    have hsame : ∀ q ∈ (made n).filter (!goes c ·.1.item), q.2 = q.1 := by
      intro q hq
      obtain ⟨hq, hstays⟩ := List.mem_filter.1 hq
      have hbecomes := h.becomes n hn q hq
      have hnone : Depot.becomes c q.1.item = none := by
        rw [goes, Bool.not_or, Bool.and_eq_true] at hstays
        simpa using hstays.1
      rwa [Becomes, hnone] at hbecomes
    rw [← h.items_eq n hn, List.filter_map, List.filter_map]
    refine (congrArg (List.map Prod.snd) (List.filter_congr hkeep)).trans ?_
    exact List.map_congr_left hsame
  have hsplit : w'.state.held (.tile n) =
      (w'.state.tiles n).ground.toList ++ (w'.state.tiles n).items.items := rfl
  rw [hsplit, List.filter_append, hground, h.ground n hn, ← hitems]
  exact ((h.items n hn).filter _).append_left _

end ClearedTiles

end Goods

/-! ## Eviction -/

/-- All that is to go goes to the inbox, and everything else stays. -/
def LosesNothing (c : Catalogue) (teleport : Teleports) (townId owner : UInt32) (ns : List ℕ)
    (s : Estate) : Prop :=
  ∃ moved s', transferToDepot c teleport townId owner ns s = some (moved, s') ∧ Delivered c ns s s'

/-- Whether nothing in a house is to go. -/
def Bare (c : Catalogue) (ns : List ℕ) (s : Estate) : Prop :=
  ∀ n ∈ ns, ∀ i ∈ (s.tiles n).items.items,
    goes c i.item = false ∧ (opens c i.item = true → s.contents i.ref = [])

variable {ns : List ℕ}

/-- Nothing has to be done where nothing is to go. -/
theorem delivered_self_iff (h : Kept c s) : Delivered c ns s s ↔ Bare c ns s := by
  constructor
  · rintro hdelivered n hn i hi
    obtain ⟨made, hmade, hperm⟩ := hdelivered.inbox
    have hnone : (ns.flatMap made).flatMap (goods c s) = [] := by
      have hlen := hperm.length_eq
      rw [List.length_append] at hlen
      exact List.eq_nil_of_length_eq_zero (by omega)
    have hnot : ∀ {a}, a ∉ (ns.flatMap made).flatMap (goods c s) := by simp [hnone]
    rw [← (hmade n hn).1] at hi
    obtain ⟨q, hq, rfl⟩ := List.mem_map.1 hi
    constructor
    · rw [Bool.eq_false_iff]
      exact fun hgoes => hnot (mem_goods_iff.2 (.inr ⟨n, hn, q, hq, hgoes, rfl⟩))
    · refine fun hopens => List.eq_nil_iff_forall_not_mem.2 fun a ha => ?_
      exact hnot (mem_goods_iff.2 (.inl ⟨n, hn, q, hq, hopens, ha⟩))
  · intro hbare
    have hnone : ((ns.flatMap fun n => (s.tiles n).items.items.map fun i => (i, i)).flatMap
        (goods c s)) = [] := by
      refine List.eq_nil_iff_forall_not_mem.2 fun a ha => ?_
      rcases mem_goods_iff.1 ha with ⟨n, hn, q, hq, hopens, ha⟩ | ⟨n, hn, q, hq, hgoes, -⟩
      · obtain ⟨i, hi, rfl⟩ := List.mem_map.1 hq
        rw [(hbare n hn i hi).2 hopens] at ha
        cases ha
      · obtain ⟨i, hi, rfl⟩ := List.mem_map.1 hq
        rw [(hbare n hn i hi).1] at hgoes
        cases hgoes
    constructor
    · refine ⟨fun n => (s.tiles n).items.items.map fun i => (i, i), fun n hn => ⟨?_, ?_⟩, ?_⟩
      · rw [List.map_map]
        exact List.map_id _
      · intro q hq
        obtain ⟨i, hi, rfl⟩ := List.mem_map.1 hq
        have hgoes := (hbare n hn i hi).1
        rw [goes, Bool.or_eq_false_iff, Option.isSome_eq_false_iff, Option.isNone_iff_eq_none]
          at hgoes
        rw [Becomes, hgoes.1]
      · rw [hnone]
        exact .refl _
    · exact h.coherent.nodup .inbox
    · intro n hn
      have hall : (s.tiles n).items.items.filter (!goes c ·.item) = (s.tiles n).items.items :=
        List.filter_eq_self.2 fun i hi => by rw [(hbare n hn i hi).1, Bool.not_false]
      rw [hall]
      exact .refl _
    · exact fun _ _ => rfl
    · exact fun n hn i hi hopens => (hbare n hn i hi).2 hopens
    · exact fun _ _ => rfl

/-- The moves deliver what is on the list. -/
theorem exists_delivered {made : ℕ → List (TileItem × TileItem)} {w w' : Walk}
    (h : ClearedTiles c ns made w w') (hw : Kept c w.state) (hns : ns.Nodup) :
    ∃ s', (((ns.flatMap made).flatMap (goods c w.state)).map (some ·.ref)).foldlM
      (moveToInbox c) w'.state = some s' ∧ Delivered c ns w.state s' := by
  set as := (ns.flatMap made).flatMap (goods c w.state)
  have hmove : ∀ (u : Estate) (p : Holder) (a : TileItem), Sound c u → p ≠ .inbox →
      a ∈ u.custody.held p → ∃ u', moveToInbox c u (some a.ref) = some u' ∧ Sound c u' ∧
        u'.custody = u.custody.transfer TileItem.ref .inbox p a :=
    fun _ _ _ hu hp ha => moveToInbox_eq hu hp ha
  obtain ⟨s', hrun, hsound, hinbox, hrest⟩ := Custody.foldlM_transfer Estate.custody
    (fun _ hu => hu.coherent) hmove h.later.kept.sound (h.nodup_goods hw hns)
    fun a ha => h.exists_place ha
  have hkeep : ∀ p, p ≠ .inbox → s'.held p =
      (w'.state.held p).filter (·.ref ∉ goodsRefs c w.state ns made) := hrest
  refine ⟨s', ?_, ?_⟩
  · rw [List.foldlM_map]
    exact hrun
  constructor
  · refine ⟨made, fun n hn => ⟨h.items_eq n hn, h.becomes n hn⟩, ?_⟩
    have hbox : s'.inbox = as.reverse ++ w.state.inbox := by
      rw [← h.later.inbox_eq]
      exact hinbox
    rw [hbox]
    exact (List.reverse_perm as).append_right _
  · exact hsound.coherent.nodup .inbox
  · intro n hn
    have htile := h.filter_tile hn
    rwa [← hkeep (.tile n) nofun] at htile
  · intro n hn
    have htile : (s'.tiles n).allItems = _ := hkeep (.tile n) nofun
    have hall : (w'.state.held (.tile n)).filter (·.ref ∉ goodsRefs c w.state ns made) =
        w'.state.held (.tile n) := by
      refine List.filter_eq_self.2 fun a ha => ?_
      rw [decide_eq_true_iff, h.tile_ref_mem_iff ha]
      exact fun hmem => hn hmem.1
    rw [htile, hall]
    exact congrArg allItems (h.later.tiles_eq n hn)
  · intro n hn i hi hopens
    have hcontents : s'.contents i.ref = _ := hkeep (.container i.ref) nofun
    rw [← h.items_eq n hn] at hi
    obtain ⟨q, hq, rfl⟩ := List.mem_map.1 hi
    rw [hcontents]
    refine List.filter_eq_nil_iff.2 fun a ha => ?_
    rw [decide_eq_true_iff, not_not, h.container_ref_mem_iff ha]
    exact ⟨n, hn, q, hq, hopens, rfl⟩
  · intro r hr
    have hcontents : s'.contents r = _ := hkeep (.container r) nofun
    have hall : (w'.state.held (.container r)).filter (·.ref ∉ goodsRefs c w.state ns made) =
        w'.state.held (.container r) := by
      refine List.filter_eq_self.2 fun a ha => ?_
      rw [decide_eq_true_iff, h.container_ref_mem_iff ha]
      rintro ⟨n, hn, q, hq, hopens, href⟩
      exact hr n hn q.1 (h.mem_fst hn hq) hopens href
    rw [hcontents, hall, h.held_container]

def homeType (id : UInt16) : ItemType :=
  if id ∈ kitIds then { id, moveable := true, pickupable := true }
  else if id = 26075 then { id, group := .container, type := .container }
  else if id = 26063 then { id }
  else if id = 2376 then { id, group := .weapon, moveable := true, pickupable := true }
  else if id = 1777 then { id, type := .trashHolder, allowPickupable := true }
  else {}

def homeFurniture (id : UInt16) : FurnitureType :=
  if id = 26075 then
    { name := "magnificent cabinet".toUTF8.toList, wrapable := true, wrapableTo := 26054 }
  else if id = 26063 then
    { name := "ferocious chair".toUTF8.toList, wrapable := true, wrapableTo := 26054 }
  else {}

theorem not_isRotatable_home (id : UInt16) : isRotatable homeFurniture id = false := by
  unfold isRotatable homeFurniture
  split_ifs <;> rfl

theorem alwaysOnTop_homeType (id : UInt16) : (homeType id).alwaysOnTop = false := by
  unfold homeType
  split_ifs <;> rfl

def homeCatalogue : Catalogue where
  types := ⟨homeType, fun _ => none⟩
  furniture := homeFurniture
  plain id hid := by
    have htype : homeType id = { id, moveable := true, pickupable := true } := if_pos hid
    constructor <;> exact congrArg _ htype
  id_eq id := by
    change (homeType id).id = id ∨ (homeType id).id = 0
    unfold homeType
    split_ifs <;> simp
  not_wrapable := rfl
  not_rotatable _ _ := not_isRotatable_home _
  one_kit id := by
    have hall : constructionKits.Pairwise fun kit kit' => kit.2 ≠ kit'.2 := by decide +kernel
    refine hall.imp fun {kit kit'} hne hfits => ?_
    simp only [fits, not_isRotatable_home, Bool.false_and, Bool.or_false, beq_iff_eq,
      beq_eq_false_iff_ne] at hfits ⊢
    rw [← hfits]
    exact hne.symm

/-- A house of one tile, with goods in the object that was made first. -/
def home (flags : TileFlags) (items : List TileItem) (goods : List TileItem) : Estate where
  tiles n := if n = 0 then { items := { items, downItemCount := items.length }, flags } else {}
  contents r := if r = 0 then goods else []
  inbox := []
  parent r :=
    if r ∈ items.map (·.ref) then some (.tile 0)
    else if r ∈ goods.map (·.ref) then some (.container 0) else none
  next := 10

def cabinet : TileItem := ⟨0, { cls := .container, id := 26075 }⟩
def sword : TileItem := ⟨1, { cls := .item, id := 2376 }⟩
def chair : TileItem := ⟨2, { cls := .item, id := 26063 }⟩
def dustbin : TileItem := ⟨3, { cls := .trashHolder, id := 1777 }⟩

theorem mem_held_home {flags : TileFlags} {items goods : List TileItem} {a : TileItem}
    (ha : a ∈ (home flags items goods).held p) :
    p = .tile 0 ∧ a ∈ items ∨ p = .container 0 ∧ a ∈ goods := by
  cases p with
  | tile n =>
    by_cases hn : n = 0
    · subst hn
      exact .inl ⟨rfl, ha⟩
    · simp [Estate.held, home, hn, allItems] at ha
  | container r =>
    by_cases hr : r = 0
    · subst hr
      exact .inr ⟨rfl, ha⟩
    · simp [Estate.held, home, hr] at ha
  | inbox => cases ha

theorem kept_home {flags : TileFlags} {items goods : List TileItem}
    (hsize : items.length ≤ 0xFFFF) (hrefs : ((items ++ goods).map (·.ref)).Nodup)
    (hlt : ∀ i ∈ items ++ goods, i.ref < 10)
    (hfurniture : ∀ i ∈ items, (becomes homeCatalogue i.item).isSome → IsFurniture i.item.cls) :
    Kept homeCatalogue (home flags items goods) where
  indexed n := by
    unfold home
    dsimp only
    split_ifs
    · constructor
      · exact le_rfl
      · exact (List.nodup_append.1 (List.map_append ▸ hrefs)).1
      · exact List.nodup_nil
      · exact fun _ _ _ => alwaysOnTop_homeType _
      · intro _ i hi
        simp [TileItemVector.topItems] at hi
    · exact indexed_empty 0
  size_le n := by
    unfold home
    dsimp only
    split_ifs
    · exact hsize
    · exact Nat.zero_le _
  coherent := by
    rw [List.map_append, List.nodup_append] at hrefs
    constructor
    · intro p a ha
      rcases mem_held_home ha with ⟨rfl, ha⟩ | ⟨rfl, ha⟩
      · exact if_pos (List.mem_map_of_mem ha)
      · have hnot : a.ref ∉ items.map (·.ref) :=
          fun hmem => hrefs.2.2 _ hmem _ (List.mem_map_of_mem ha) rfl
        exact (if_neg hnot).trans (if_pos (List.mem_map_of_mem ha))
    · rintro (n | r | _)
      · by_cases hn : n = 0
        · subst hn
          exact hrefs.1
        · simp [Estate.custody, Estate.held, home, hn, allItems]
      · by_cases hr : r = 0
        · subst hr
          exact hrefs.2.1
        · simp [Estate.custody, Estate.held, home, hr]
      · exact List.nodup_nil
  lt_next p a ha := by
    rcases mem_held_home ha with ⟨-, ha⟩ | ⟨-, ha⟩
    · exact hlt a (List.mem_append_left _ ha)
    · exact hlt a (List.mem_append_right _ ha)
  furniture n a ha hsome := by
    rcases mem_held_home (p := .tile n) (List.mem_append_right _ ha) with ⟨-, ha⟩ | ⟨hp, -⟩
    · exact hfurniture a ha hsome
    · cases hp

end Depot

end OTServBR
