import Mathlib.Data.List.Nodup
import OTServBR.Lib.Run
import OTServBR.Trade.Basic

/-! # What traders agree to

Trade partners know each other, and the map of offers is the offers of the
players. A transfer is what both agreed to, if no offer is made to a player who
has already accepted and nobody completes a trade in which an offer is missing.
-/

namespace OTServBR.Trade

variable {π ι : Type*} [DecidableEq π] [DecidableEq ι] {g g' : Game π ι} {p q r : π} {i j : ι}

namespace Game

/-- Partners are partners of each other, the map holds the offers, and they lie apart. -/
structure Consistent (g : Game π ι) : Prop where
  symm : ∀ p q, (g.players p).tradePartner = some q → (g.players q).tradePartner = some p
  ne : ∀ p, (g.players p).tradePartner ≠ some p
  none_iff : ∀ p, (g.players p).tradeState = .none ↔ (g.players p).tradePartner = none
  notTransfer : ∀ p, (g.players p).tradeState ≠ .transfer
  offering : ∀ p i, (g.players p).tradeItem = some i →
    (g.players p).tradeState = .initiated ∨ (g.players p).tradeState = .accept
  mem_iff : ∀ i p, (i, p) ∈ g.tradeItems ↔ (g.players p).tradeItem = some i
  nodup : (g.tradeItems.map (·.1)).Nodup
  apart : ∀ p q i j, (g.players p).tradeItem = some i → (g.players q).tradeItem = some j →
    i ≠ j → g.isHoldingItem i j = false

/-- A player outside of any trade. -/
structure Cleared (player : Player π ι) : Prop where
  tradeState : player.tradeState = .none
  tradePartner : player.tradePartner = none
  tradeItem : player.tradeItem = none

/-- Two players, who may be the same, are out of all trades, and the rest is as before. -/
structure Released (g : Game π ι) (p q : π) (g' : Game π ι) : Prop where
  others : ∀ r, r ≠ p → r ≠ q → g'.players r = g.players r
  left : Cleared (g'.players p)
  right : Cleared (g'.players q)
  offers : g'.tradeItems = g.tradeItems.filter fun x =>
    (g.players p).tradeItem ≠ some x.1 ∧ (g.players q).tradeItem ≠ some x.1
  holding : ∀ r i j, r ≠ p → r ≠ q → (g.players r).tradeItem = some j →
    g'.isHoldingItem i j = g.isHoldingItem i j

omit [DecidableEq π] [DecidableEq ι] in
theorem cleared_or [DecidableEq π] (hothers : ∀ r, r ≠ p → r ≠ q → g'.players r = g.players r)
    (hp : Cleared (g'.players p)) (hq : Cleared (g'.players q)) (r : π) :
    Cleared (g'.players r) ∨ r ≠ p ∧ r ≠ q ∧ g'.players r = g.players r := by
  by_cases hrp : r = p
  · exact .inl (hrp ▸ hp)
  by_cases hrq : r = q
  · exact .inl (hrq ▸ hq)
  exact .inr ⟨hrp, hrq, hothers r hrp hrq⟩

omit [DecidableEq π] in
theorem eraseOffer_eq {item : Option ι} : g.eraseOffer item =
    { g with tradeItems := g.tradeItems.filter fun x => item ≠ some x.1 } := by
  cases item with
  | none =>
    have hall : g.tradeItems.filter (fun x => (none : Option ι) ≠ some x.1) = g.tradeItems :=
      List.filter_eq_self.mpr fun x _ => decide_eq_true nofun
    rw [hall]
    rfl
  | some item =>
    have hsame : g.tradeItems.filter (fun x => some item ≠ some x.1) =
        g.tradeItems.filter (·.1 ≠ item) :=
      List.filter_congr fun x _ => by simp [eq_comm]
    rw [hsame]
    rfl

omit [DecidableEq π] in
/-- The map without the offers of two players. -/
theorem filter_offers {p q : Option ι} {l : List (ι × π)} :
    (l.filter fun x => p ≠ some x.1).filter (fun x => q ≠ some x.1) =
      l.filter fun x => p ≠ some x.1 ∧ q ≠ some x.1 := by
  rw [List.filter_filter]
  refine List.filter_congr fun x _ => ?_
  rw [Bool.decide_and, Bool.and_comm]

omit [DecidableEq π] in
/-- Moves of items change the containers around them and nothing else. -/
theorem moveItems_eq (g : Game π ι) (a : Acceptance ι) (item1 item2 : Option ι) :
    ∃ parents, g.moveItems a item1 item2 = { g with parents := parents } := by
  have hmove : ∀ (g : Game π ι) (i : ι) (o : Option (List ι)),
      ∃ parents, g.moveItem i o = { g with parents := parents } := by
    intro g i o
    cases o with
    | none => exact ⟨_, rfl⟩
    | some destination => exact ⟨_, rfl⟩
  rw [moveItems.eq_def]
  split
  · split
    · next i j _ =>
      obtain ⟨parents, heq⟩ := hmove g i a.destination1
      obtain ⟨parents', heq'⟩ := hmove (g.moveItem i a.destination1) j a.destination2
      exact ⟨parents', by rw [heq', heq]⟩
    · exact ⟨_, rfl⟩
  · exact ⟨_, rfl⟩

omit [DecidableEq π] in
theorem isHoldingItem_moveItem (hne : j ≠ i) (hout : g.isHoldingItem i j = false)
    {o : Option (List ι)} (k : ι) : (g.moveItem i o).isHoldingItem k j = g.isHoldingItem k j := by
  cases o with
  | none => rfl
  | some destination =>
    have hsame : (g.moveItem i (some destination)).parents j = g.parents j := by
      rw [moveItem]
      dsimp only
      rw [if_neg hne, hout, if_neg Bool.false_ne_true]
    simp only [isHoldingItem, hsame]
    rfl

omit [DecidableEq π] in
/-- What holds an item is the same after moves of items that neither are it nor hold it. -/
theorem isHoldingItem_moveItems {a : Acceptance ι} {item1 item2 : Option ι}
    (h1 : ∀ i, item1 = some i → j ≠ i ∧ g.isHoldingItem i j = false)
    (h2 : ∀ i, item2 = some i → j ≠ i ∧ g.isHoldingItem i j = false) (k : ι) :
    (g.moveItems a item1 item2).isHoldingItem k j = g.isHoldingItem k j := by
  rw [moveItems.eq_def]
  split
  · next i1 i2 =>
    obtain ⟨hne1, hout1⟩ := h1 i1 rfl
    obtain ⟨hne2, hout2⟩ := h2 i2 rfl
    split
    · rw [isHoldingItem_moveItem hne2 ((isHoldingItem_moveItem hne1 hout1 i2).trans hout2),
        isHoldingItem_moveItem hne1 hout1]
    · rfl
  · rfl

/-- What is offered is offered to another player and was free. -/
theorem of_offeredItem {r : Request π ι} {item : ι} (h : g.offeredItem r = some item) :
    r.player ≠ r.tradePartner ∧ g.isTraded item = false := by
  rw [offeredItem] at h
  split at h
  · cases h
  next hpartner =>
  split at h
  · cases h
  split at h
  · cases h
  split at h
  · cases h
  split at h
  · cases h
  next hfree =>
  split at h
  · cases h
  split at h
  · cases h
  rw [Option.some.injEq] at h
  rw [not_or] at hpartner
  exact ⟨Ne.symm hpartner.2, h ▸ eq_false_of_ne_true hfree⟩

namespace Consistent

omit [DecidableEq π] in
/-- No item is offered twice. -/
theorem once (h : g.Consistent) (hp : (g.players p).tradeItem = some i)
    (hq : (g.players q).tradeItem = some i) : p = q :=
  (Prod.mk.inj (List.inj_on_of_nodup_map h.nodup ((h.mem_iff i p).mpr hp)
    ((h.mem_iff i q).mpr hq) rfl)).2

/-- Two partners, or a player without one, are taken out of the trades. -/
theorem release (h : g.Consistent) (hrelease : Released g p q g')
    (hpair : ∀ r, (g.players r).tradePartner = some p ∨ (g.players r).tradePartner = some q →
      r = p ∨ r = q) : g'.Consistent := by
  have hplayers := hrelease.others
  have hcases := cleared_or hrelease.others hrelease.left hrelease.right
  -- Only the others offer anything.
  have hoffer : ∀ r i, (g'.players r).tradeItem = some i →
      r ≠ p ∧ r ≠ q ∧ (g.players r).tradeItem = some i := by
    intro r i hi
    rcases hcases r with hclear | ⟨hrp, hrq, hsame⟩
    · rw [hclear.tradeItem] at hi
      cases hi
    · exact ⟨hrp, hrq, hsame ▸ hi⟩
  refine ⟨fun r t hrt => ?_, fun r => ?_, fun r => ?_, fun r => ?_, fun r i hi => ?_,
    fun i r => ?_, ?_, fun r t i j hi hj hne => ?_⟩
  · rcases hcases r with hclear | ⟨hrp, hrq, hsame⟩
    · rw [hclear.tradePartner] at hrt
      cases hrt
    · rw [hsame] at hrt
      have htr := h.symm r t hrt
      have htp : t ≠ p := by
        rintro rfl
        exact (hpair r (.inl hrt)).elim hrp hrq
      have htq : t ≠ q := by
        rintro rfl
        exact (hpair r (.inr hrt)).elim hrp hrq
      rw [hplayers t htp htq]
      exact htr
  · rcases hcases r with hclear | ⟨-, -, hsame⟩
    · rw [hclear.tradePartner]
      exact nofun
    · rw [hsame]
      exact h.ne r
  · rcases hcases r with hclear | ⟨-, -, hsame⟩
    · exact iff_of_true hclear.tradeState hclear.tradePartner
    · rw [hsame]
      exact h.none_iff r
  · rcases hcases r with hclear | ⟨-, -, hsame⟩
    · rw [hclear.tradeState]
      exact nofun
    · rw [hsame]
      exact h.notTransfer r
  · obtain ⟨hrp, hrq, hi⟩ := hoffer r i hi
    rw [hplayers r hrp hrq]
    exact h.offering r i hi
  · rw [hrelease.offers, List.mem_filter, h.mem_iff, decide_eq_true_iff]
    constructor
    · rintro ⟨hi, hip, hiq⟩
      have hrp : r ≠ p := fun heq => hip (heq ▸ hi)
      have hrq : r ≠ q := fun heq => hiq (heq ▸ hi)
      rw [hplayers r hrp hrq]
      exact hi
    · intro hi
      obtain ⟨hrp, hrq, hi⟩ := hoffer r i hi
      exact ⟨hi, fun hip => hrp (h.once hi hip), fun hiq => hrq (h.once hi hiq)⟩
  · rw [hrelease.offers]
    exact h.nodup.sublist (List.filter_sublist.map _)
  · obtain ⟨-, -, hi⟩ := hoffer r i hi
    obtain ⟨htp, htq, hj⟩ := hoffer t j hj
    rw [hrelease.holding t i j htp htq hj]
    exact h.apart r t i j hi hj hne

/-- A player accepts what is offered. -/
theorem accept (h : g.Consistent) (hp : (g.players p).tradePartner = some q)
    (accepted : Option ι × Option ι) :
    (g.setPlayer p { g.players p with
      tradeState := .accept, accepted := accepted }).Consistent := by
  have hsame : ∀ r, ((g.setPlayer p { g.players p with
      tradeState := .accept, accepted := accepted }).players r).tradePartner =
        (g.players r).tradePartner ∧
      ((g.setPlayer p { g.players p with
        tradeState := .accept, accepted := accepted }).players r).tradeItem =
          (g.players r).tradeItem ∧
      (((g.setPlayer p { g.players p with
        tradeState := .accept, accepted := accepted }).players r).tradeState =
          (g.players r).tradeState ∨ r = p ∧
        ((g.setPlayer p { g.players p with
          tradeState := .accept, accepted := accepted }).players r).tradeState = .accept) := by
    intro r
    dsimp only [setPlayer]
    by_cases hr : r = p
    · rw [hr, Function.update_self]
      exact ⟨rfl, rfl, .inr ⟨rfl, rfl⟩⟩
    · rw [Function.update_of_ne hr]
      exact ⟨rfl, rfl, .inl rfl⟩
  refine ⟨fun r t hrt => ?_, fun r => ?_, fun r => ?_, fun r => ?_, fun r i hi => ?_,
    fun i r => ?_, h.nodup, fun r t i j hi hj hne => ?_⟩
  · rw [(hsame r).1] at hrt
    rw [(hsame t).1]
    exact h.symm r t hrt
  · rw [(hsame r).1]
    exact h.ne r
  · rw [(hsame r).1]
    rcases (hsame r).2.2 with hstate | ⟨rfl, hstate⟩
    · rw [hstate]
      exact h.none_iff r
    · rw [hstate, hp]
      exact iff_of_false nofun nofun
  · rcases (hsame r).2.2 with hstate | ⟨-, hstate⟩
    · rw [hstate]
      exact h.notTransfer r
    · rw [hstate]
      exact nofun
  · rw [(hsame r).2.1] at hi
    rcases (hsame r).2.2 with hstate | ⟨-, hstate⟩
    · rw [hstate]
      exact h.offering r i hi
    · exact .inr hstate
  · rw [(hsame r).2.1]
    exact h.mem_iff i r
  · rw [(hsame r).2.1] at hi
    rw [(hsame t).2.1] at hj
    exact h.apart r t i j hi hj hne

omit [DecidableEq π] in
/-- What a free item has to do with the offers. -/
theorem apart_of_not_isTraded (h : g.Consistent) {item : ι} (hfree : g.isTraded item = false)
    (hr : (g.players r).tradeItem = some i) :
    item ≠ i ∧ g.isHoldingItem item i = false ∧ g.isHoldingItem i item = false := by
  have hmem := (h.mem_iff i r).mpr hr
  rw [isTraded] at hfree
  split at hfree
  · rw [List.any_eq_false] at hfree
    have hnone := hfree _ hmem
    simpa [and_assoc] using hnone
  · next hcontainer =>
    rw [List.any_eq_false] at hfree
    have hnone := hfree _ hmem
    have hholding : g.isHoldingItem item i = false := by
      rw [isHoldingItem, eq_false_of_ne_true hcontainer, Bool.false_and]
    simp only [Bool.or_eq_true, beq_iff_eq, not_or, Bool.not_eq_true] at hnone
    exact ⟨hnone.1, hholding, hnone.2⟩

/-- A player offers an item, and he and the other one are partners. -/
theorem link (h : g.Consistent) {item : ι} (hne : p ≠ q) (hfree : g.isTraded item = false)
    (hnone : (g.players p).tradeItem = none)
    (hpair : ∀ r, r ≠ p → r ≠ q →
      (g.players r).tradePartner ≠ some p ∧ (g.players r).tradePartner ≠ some q)
    (hplayers : ∀ r, r ≠ p → r ≠ q → g'.players r = g.players r)
    (hp : (g'.players p).tradePartner = some q ∧ (g'.players p).tradeItem = some item ∧
      (g'.players p).tradeState = .initiated)
    (hq : (g'.players q).tradePartner = some p ∧
      (g'.players q).tradeItem = (g.players q).tradeItem)
    (hstate : (g'.players q).tradeState ≠ .none ∧ (g'.players q).tradeState ≠ .transfer ∧
      ∀ i, (g.players q).tradeItem = some i →
        (g'.players q).tradeState = .initiated ∨ (g'.players q).tradeState = .accept)
    (hitems : g'.tradeItems = g.tradeItems.filter (·.1 ≠ item) ++ [(item, p)])
    (hholding : g'.isHoldingItem = g.isHoldingItem) : g'.Consistent := by
  have hcases : ∀ r, r = p ∨ r = q ∨ r ≠ p ∧ r ≠ q := by
    intro r
    by_cases hrp : r = p
    · exact .inl hrp
    by_cases hrq : r = q
    · exact .inr (.inl hrq)
    exact .inr (.inr ⟨hrp, hrq⟩)
  -- The offers are the old ones and the new one.
  have hoffer : ∀ r i, (g'.players r).tradeItem = some i ↔
      r = p ∧ i = item ∨ (g.players r).tradeItem = some i := by
    intro r i
    rcases hcases r with rfl | rfl | ⟨hrp, hrq⟩
    · rw [hp.2.1, hnone, Option.some.injEq]
      simp [eq_comm]
    · rw [hq.2]
      simp [hne.symm]
    · rw [hplayers r hrp hrq]
      simp [hrp]
  have hnew : ∀ x ∈ g.tradeItems, x.1 ≠ item := by
    rintro ⟨i, r⟩ hx
    exact (h.apart_of_not_isTraded hfree ((h.mem_iff i r).mp hx)).1.symm
  have hkeep : g.tradeItems.filter (·.1 ≠ item) = g.tradeItems :=
    List.filter_eq_self.mpr fun x hx => decide_eq_true (hnew x hx)
  rw [hkeep] at hitems
  refine ⟨fun r t hrt => ?_, fun r => ?_, fun r => ?_, fun r => ?_, fun r i hi => ?_,
    fun i r => ?_, ?_, fun r t i j hi hj hij => ?_⟩
  · rcases hcases r with rfl | rfl | ⟨hrp, hrq⟩
    · rw [hp.1, Option.some.injEq] at hrt
      exact hrt ▸ hq.1
    · rw [hq.1, Option.some.injEq] at hrt
      exact hrt ▸ hp.1
    · rw [hplayers r hrp hrq] at hrt
      have hout := hpair r hrp hrq
      have htp : t ≠ p := by
        rintro rfl
        exact hout.1 hrt
      have htq : t ≠ q := by
        rintro rfl
        exact hout.2 hrt
      rw [hplayers t htp htq]
      exact h.symm r t hrt
  · rcases hcases r with rfl | rfl | ⟨hrp, hrq⟩
    · rw [hp.1, Ne, Option.some.injEq]
      exact hne.symm
    · rw [hq.1, Ne, Option.some.injEq]
      exact hne
    · rw [hplayers r hrp hrq]
      exact h.ne r
  · rcases hcases r with rfl | rfl | ⟨hrp, hrq⟩
    · rw [hp.1, hp.2.2]
      exact iff_of_false nofun nofun
    · rw [hq.1]
      exact iff_of_false hstate.1 nofun
    · rw [hplayers r hrp hrq]
      exact h.none_iff r
  · rcases hcases r with rfl | rfl | ⟨hrp, hrq⟩
    · rw [hp.2.2]
      exact nofun
    · exact hstate.2.1
    · rw [hplayers r hrp hrq]
      exact h.notTransfer r
  · rcases hcases r with rfl | rfl | ⟨hrp, hrq⟩
    · exact .inl hp.2.2
    · exact hstate.2.2 i (hq.2 ▸ hi)
    · rw [hplayers r hrp hrq] at hi ⊢
      exact h.offering r i hi
  · rw [hitems, List.mem_append, List.mem_singleton, Prod.mk.injEq, h.mem_iff, hoffer, or_comm,
      and_comm]
  · rw [hitems, List.map_append, List.map_singleton]
    refine h.nodup.append (List.nodup_singleton _) ?_
    rw [List.disjoint_singleton]
    intro hmem
    obtain ⟨x, hx, heq⟩ := List.mem_map.mp hmem
    exact hnew x hx heq
  · rw [hholding]
    rcases (hoffer r i).mp hi with ⟨-, rfl⟩ | hi <;> rcases (hoffer t j).mp hj with ⟨-, rfl⟩ | hj
    · exact absurd rfl hij
    · exact (h.apart_of_not_isTraded hfree hj).2.1
    · exact (h.apart_of_not_isTraded hfree hi).2.2
    · exact h.apart r t i j hi hj hij

omit [DecidableEq π] in
/-- Players that can begin a trade, or are in one, are nobody else's partners. -/
theorem unpaired (h : g.Consistent)
    (hready : (g.players p).tradeState = .none ∨
      (g.players p).tradeState = .acknowledge ∧ (g.players p).tradePartner = some q)
    (hready' : (g.players q).tradeState = .none ∨ (g.players q).tradePartner = some p) (r : π)
    (hrp : r ≠ p) (hrq : r ≠ q) :
    (g.players r).tradePartner ≠ some p ∧ (g.players r).tradePartner ≠ some q := by
  constructor
  · intro hr
    have hp := h.symm r p hr
    rcases hready with hready | ⟨-, hready⟩
    · rw [(h.none_iff p).mp hready] at hp
      cases hp
    · rw [hready, Option.some.injEq] at hp
      exact hrq hp.symm
  · intro hr
    have hq := h.symm r q hr
    rcases hready' with hready' | hready'
    · rw [(h.none_iff q).mp hready'] at hq
      cases hq
    · rw [hready', Option.some.injEq] at hq
      exact hrp hq.symm

/-- A player offers an item, and the other one comes to know of it. -/
theorem internalStartTrade (h : g.Consistent) {item : ι} (hne : p ≠ q)
    (hfree : g.isTraded item = false) : (g.internalStartTrade p q item).Consistent := by
  rw [Game.internalStartTrade]
  dsimp only
  split
  · exact h
  next hready =>
  split
  · exact h
  next hready' =>
  rw [not_and_or, not_not, not_not] at hready
  rw [not_and_or, not_not, not_not] at hready'
  have hnone : (g.players p).tradeItem = none := by
    cases hitem : (g.players p).tradeItem with
    | none => rfl
    | some i =>
      rcases h.offering p i hitem with hstate | hstate <;> rw [hstate] at hready <;>
        rcases hready with hready | ⟨hready, -⟩ <;> cases hready
  have hpair := h.unpaired hready hready'
  split
  · next hfresh =>
    refine h.link hne hfree hnone hpair (fun r hrp hrq => ?_) ?_ ?_ ?_ rfl rfl
    · dsimp only [setPlayer]
      rw [Function.update_of_ne hrq, Function.update_of_ne hrp]
    · dsimp only [setPlayer]
      rw [Function.update_of_ne hne, Function.update_self]
      exact ⟨rfl, rfl, rfl⟩
    · dsimp only [setPlayer]
      rw [Function.update_self]
      exact ⟨rfl, rfl⟩
    · dsimp only [setPlayer]
      rw [Function.update_self]
      refine ⟨nofun, nofun, fun i hi => ?_⟩
      rcases h.offering q i hi with hstate | hstate <;> rw [hstate] at hfresh <;> cases hfresh
  · next hknown =>
    have hq := hready'.resolve_left hknown
    refine h.link hne hfree hnone hpair (fun r hrp hrq => ?_) ?_ ?_ ?_ rfl rfl
    · exact Function.update_of_ne hrp _ _
    · dsimp only [setPlayer]
      rw [Function.update_self]
      exact ⟨rfl, rfl, rfl⟩
    · dsimp only [setPlayer]
      rw [Function.update_of_ne hne.symm]
      exact ⟨hq, rfl⟩
    · dsimp only [setPlayer]
      rw [Function.update_of_ne hne.symm]
      exact ⟨hknown, h.notTransfer q, h.offering q⟩

omit [DecidableEq π] in
/-- The two players of a trade are nobody else's partners. -/
theorem pair_of_partner (h : g.Consistent) (hp : (g.players p).tradePartner = some q) (r : π) :
    (g.players r).tradePartner = some p ∨ (g.players r).tradePartner = some q → r = p ∨ r = q := by
  rintro (hr | hr)
  · have hpr := h.symm r p hr
    rw [hp, Option.some.injEq] at hpr
    exact .inr hpr.symm
  · have hqr := h.symm r q hr
    rw [h.symm p q hp, Option.some.injEq] at hqr
    exact .inl hqr.symm

theorem released_close_alone (h : g.Consistent) (hp : (g.players p).tradePartner = none) :
    Released g p p (g.internalCloseTrade p) := by
  rw [Game.internalCloseTrade, hp]
  dsimp only
  rw [if_neg (h.notTransfer p), leaveTrade, eraseOffer_eq]
  have hclear : Cleared (Function.update g.players p
      { g.players p with tradeState := .none, tradePartner := none, tradeItem := none } p) := by
    rw [Function.update_self]
    exact ⟨rfl, rfl, rfl⟩
  refine ⟨fun r hrp _ => Function.update_of_ne hrp _ _, hclear, hclear, ?_, fun _ _ _ _ _ _ => rfl⟩
  exact List.filter_congr fun x _ => by simp

theorem released_close (h : g.Consistent) (hp : (g.players p).tradePartner = some q) :
    Released g p q (g.internalCloseTrade p) := by
  have hne : q ≠ p := by
    rintro rfl
    exact h.ne q hp
  rw [Game.internalCloseTrade, hp]
  dsimp only
  rw [if_neg (not_or.mpr ⟨h.notTransfer q, h.notTransfer p⟩), leaveTrade, leaveTrade,
    eraseOffer_eq, eraseOffer_eq]
  refine ⟨fun r hrp hrq => ?_, ?_, ?_, ?_, fun _ _ _ _ _ _ => rfl⟩
  · dsimp only [setPlayer]
    rw [Function.update_of_ne hrq, Function.update_of_ne hrp]
  · dsimp only [setPlayer]
    rw [Function.update_of_ne hne.symm, Function.update_self]
    exact ⟨rfl, rfl, rfl⟩
  · dsimp only [setPlayer]
    rw [Function.update_self]
    exact ⟨rfl, rfl, rfl⟩
  · simp only [setPlayer, Function.update_of_ne hne]
    exact filter_offers

theorem internalCloseTrade (h : g.Consistent) : (g.internalCloseTrade p).Consistent := by
  cases hp : (g.players p).tradePartner with
  | none =>
    refine h.release (h.released_close_alone hp) fun r hr => ?_
    rw [or_self] at hr
    rw [h.symm r p hr] at hp
    cases hp
  | some q => exact h.release (h.released_close hp) (h.pair_of_partner hp)

theorem released_transfer (h : g.Consistent) {a : Acceptance ι}
    (hp : (g.players p).tradePartner = some q) : Released g p q (g.transfer p q a) := by
  have hne : q ≠ p := by
    rintro rfl
    exact h.ne q hp
  rw [Game.transfer]
  dsimp only
  split
  · exact h.released_close hp
  rw [eraseOffer_eq, eraseOffer_eq]
  dsimp only
  rw [filter_offers]
  obtain ⟨parents, hmoved⟩ := moveItems_eq
    { g with
      transfers := g.transfers ++ [⟨p, q, (g.players p).tradeItem, (g.players q).tradeItem,
        (g.players p).accepted, (g.players q).accepted⟩]
      tradeItems := g.tradeItems.filter fun x =>
        (g.players p).tradeItem ≠ some x.1 ∧ (g.players q).tradeItem ≠ some x.1 }
    a (g.players p).tradeItem (g.players q).tradeItem
  refine ⟨fun r hrp hrq => ?_, ?_, ?_, ?_, fun r i j hrp hrq hj => ?_⟩
  · rw [hmoved]
    dsimp only [endTrade, setPlayer]
    rw [Function.update_of_ne hrq, Function.update_of_ne hrp]
  · dsimp only [endTrade, setPlayer]
    rw [Function.update_of_ne hne.symm, Function.update_self]
    exact ⟨rfl, rfl, rfl⟩
  · dsimp only [endTrade, setPlayer]
    rw [Function.update_self]
    exact ⟨rfl, rfl, rfl⟩
  · rw [hmoved]
    rfl
  · refine isHoldingItem_moveItems (fun k hk => ?_) (fun k hk => ?_) i
    · have hjk : j ≠ k := by
        rintro rfl
        exact hrp (h.once hj hk)
      exact ⟨hjk, h.apart p r k j hk hj hjk.symm⟩
    · have hjk : j ≠ k := by
        rintro rfl
        exact hrq (h.once hj hk)
      exact ⟨hjk, h.apart q r k j hk hj hjk.symm⟩

theorem transfer (h : g.Consistent) {a : Acceptance ι}
    (hp : (g.players p).tradePartner = some q) : (g.transfer p q a).Consistent :=
  h.release (h.released_transfer hp) (h.pair_of_partner hp)

theorem playerAcceptTrade (h : g.Consistent) {a : Acceptance ι} :
    (g.playerAcceptTrade p a).Consistent := by
  rw [Game.playerAcceptTrade]
  dsimp only
  split
  · exact h
  split
  · exact h
  · next q hpartner =>
    split
    · exact h
    have haccept := h.accept hpartner ((g.players p).tradeItem, (g.players q).tradeItem)
    split
    · refine haccept.transfer ?_
      dsimp only [setPlayer]
      rw [Function.update_self]
      exact hpartner
    · exact haccept

theorem playerRequestTrade (h : g.Consistent) {r : Request π ι} :
    (g.playerRequestTrade r).Consistent := by
  rw [Game.playerRequestTrade]
  split
  · next item hitem =>
    obtain ⟨hne, hfree⟩ := of_offeredItem hitem
    exact h.internalStartTrade hne hfree
  · exact h

theorem apply (h : g.Consistent) (a : Action π ι) : (apply g a).Consistent := by
  cases a with
  | requestTrade r => exact h.playerRequestTrade
  | acceptTrade p a => exact h.playerAcceptTrade
  | closeTrade p => exact h.internalCloseTrade

end Consistent

/-! ## Agreement -/

end Game

/-- Both players accepted what the transfer exchanges. -/
def Transfer.Consented (t : Transfer π ι) : Prop :=
  ∃ i j, t.tradeItem1 = some i ∧ t.tradeItem2 = some j ∧
    t.accepted1 = (some i, some j) ∧ t.accepted2 = (some j, some i)

/-- Nobody offers an item to a player who has already accepted, and nobody completes a trade in
which an offer is missing. -/
def Careful (g : Game π ι) : Action π ι → Prop
  | .requestTrade r => g.offeredItem r ≠ none → (g.players r.player).tradeState = .acknowledge →
    (g.players r.player).tradePartner = some r.tradePartner →
      (g.players r.tradePartner).tradeState ≠ .accept
  | .acceptTrade p a => ∀ q,
    (g.players p).tradeState = .acknowledge ∨ (g.players p).tradeState = .initiated →
    (g.players p).tradePartner = some q → (g.players q).tradeState = .accept →
    a.canThrowObjectTo = true → a.onTradeAccept = true →
      (g.players p).tradeItem ≠ none ∧ (g.players q).tradeItem ≠ none
  | .closeTrade _ => True

namespace Game

/-- Who has accepted knows what is offered now. -/
structure Agreed (g : Game π ι) : Prop where
  accepted : ∀ p q, (g.players p).tradeState = .accept → (g.players p).tradePartner = some q →
    (g.players p).accepted = ((g.players p).tradeItem, (g.players q).tradeItem)
  consented : ∀ t ∈ g.transfers, t.Consented

namespace Agreed

theorem release (h : g.Agreed) (hrelease : Released g p q g')
    (hpair : ∀ r, (g.players r).tradePartner = some p ∨ (g.players r).tradePartner = some q →
      r = p ∨ r = q) (htransfers : ∀ t ∈ g'.transfers, t.Consented) : g'.Agreed := by
  refine ⟨fun r t haccept hpartner => ?_, htransfers⟩
  rcases cleared_or hrelease.others hrelease.left hrelease.right r with hclear | ⟨hrp, hrq, hsame⟩
  · rw [hclear.tradeState] at haccept
    cases haccept
  · rw [hsame] at haccept hpartner ⊢
    have htp : t ≠ p := by
      rintro rfl
      exact (hpair r (.inl hpartner)).elim hrp hrq
    have htq : t ≠ q := by
      rintro rfl
      exact (hpair r (.inr hpartner)).elim hrp hrq
    rw [hrelease.others t htp htq]
    exact h.accepted r t haccept hpartner

theorem transfers_close : (g.internalCloseTrade p).transfers = g.transfers := by
  rw [Game.internalCloseTrade]
  split
  · split
    · rfl
    · rw [leaveTrade, eraseOffer_eq]
      rfl
  · split
    · rfl
    · rw [leaveTrade, leaveTrade, eraseOffer_eq, eraseOffer_eq]
      rfl

theorem internalCloseTrade (h : g.Agreed) (hg : g.Consistent) :
    (g.internalCloseTrade p).Agreed := by
  have htransfers : ∀ t ∈ (g.internalCloseTrade p).transfers, t.Consented := by
    rw [transfers_close]
    exact h.consented
  cases hp : (g.players p).tradePartner with
  | none =>
    refine h.release (hg.released_close_alone hp) (fun r hr => ?_) htransfers
    rw [or_self] at hr
    rw [hg.symm r p hr] at hp
    cases hp
  | some q => exact h.release (hg.released_close hp) (hg.pair_of_partner hp) htransfers

theorem transfers_transfer {a : Acceptance ι} : (g.transfer p q a).transfers =
    if a.onTradeAccept = false then g.transfers
    else g.transfers ++ [⟨p, q, (g.players p).tradeItem, (g.players q).tradeItem,
      (g.players p).accepted, (g.players q).accepted⟩] := by
  rw [Game.transfer]
  dsimp only
  split
  · exact transfers_close
  · rw [eraseOffer_eq, eraseOffer_eq]
    dsimp only
    obtain ⟨parents, hmoved⟩ := moveItems_eq
      { g with
        transfers := g.transfers ++ [⟨p, q, (g.players p).tradeItem, (g.players q).tradeItem,
          (g.players p).accepted, (g.players q).accepted⟩]
        tradeItems := (g.tradeItems.filter fun x => (g.players p).tradeItem ≠ some x.1).filter
          fun x => (g.players q).tradeItem ≠ some x.1 }
      a (g.players p).tradeItem (g.players q).tradeItem
    rw [hmoved]
    rfl

/-- A transfer follows two acceptances of the same two items. -/
theorem transfer (h : g.Agreed) (hg : g.Consistent) {a : Acceptance ι}
    (hp : (g.players p).tradePartner = some q)
    (haccept : (g.players p).tradeState = .accept ∧ (g.players q).tradeState = .accept)
    (hoffers : a.onTradeAccept = true →
      (g.players p).tradeItem ≠ none ∧ (g.players q).tradeItem ≠ none) :
    (g.transfer p q a).Agreed := by
  refine h.release (hg.released_transfer hp) (hg.pair_of_partner hp) ?_
  rw [transfers_transfer]
  split
  · exact h.consented
  next hscript =>
  intro t ht
  rcases List.mem_append.mp ht with ht | ht
  · exact h.consented t ht
  · rw [List.mem_singleton.mp ht]
    obtain ⟨hitem1, hitem2⟩ := hoffers (eq_true_of_ne_false hscript)
    obtain ⟨i, hi⟩ := Option.ne_none_iff_exists'.mp hitem1
    obtain ⟨j, hj⟩ := Option.ne_none_iff_exists'.mp hitem2
    have hp' := h.accepted p q haccept.1 hp
    have hq' := h.accepted q p haccept.2 (hg.symm p q hp)
    rw [hi, hj] at hp' hq'
    exact ⟨i, j, hi, hj, hp', hq'⟩

omit [DecidableEq ι] in
/-- Whoever accepts knows what is offered. -/
theorem accept (h : g.Agreed) (hp : (g.players p).tradePartner = some q) :
    (g.setPlayer p { g.players p with
      tradeState := .accept
      accepted := ((g.players p).tradeItem, (g.players q).tradeItem) }).Agreed := by
  refine ⟨fun r t haccept hpartner => ?_, h.consented⟩
  have hitem : ∀ r, ((g.setPlayer p { g.players p with
      tradeState := .accept
      accepted := ((g.players p).tradeItem, (g.players q).tradeItem) }).players r).tradeItem =
        (g.players r).tradeItem := by
    intro r
    dsimp only [setPlayer]
    by_cases hr : r = p
    · rw [hr, Function.update_self]
    · rw [Function.update_of_ne hr]
  rw [hitem, hitem]
  dsimp only [setPlayer] at haccept hpartner ⊢
  by_cases hr : r = p
  · subst hr
    rw [Function.update_self] at hpartner ⊢
    dsimp only at hpartner ⊢
    rw [hp, Option.some.injEq] at hpartner
    rw [hpartner]
  · rw [Function.update_of_ne hr] at haccept hpartner ⊢
    exact h.accepted r t haccept hpartner

theorem playerAcceptTrade (h : g.Agreed) (hg : g.Consistent) {a : Acceptance ι}
    (ha : Careful g (.acceptTrade p a)) : (g.playerAcceptTrade p a).Agreed := by
  rw [Game.playerAcceptTrade]
  dsimp only
  split
  · exact h
  next hstate =>
  split
  · exact h
  · next q hpartner =>
    split
    · exact h
    next hthrow =>
    have haccept := h.accept hpartner
    split
    · next hq =>
      have hne : q ≠ p := by
        rintro rfl
        exact hg.ne q hpartner
      refine haccept.transfer (hg.accept hpartner _) ?_ ?_ ?_
      · dsimp only [setPlayer]
        rw [Function.update_self]
        exact hpartner
      · dsimp only [setPlayer]
        rw [Function.update_self, Function.update_of_ne hne]
        exact ⟨rfl, hq⟩
      · intro hscript
        dsimp only [setPlayer]
        rw [Function.update_self, Function.update_of_ne hne]
        exact ha q (not_not.mp hstate) hpartner hq (eq_true_of_ne_false hthrow) hscript
    · exact haccept

/-- An offer does not change what others have accepted. -/
theorem internalStartTrade (h : g.Agreed) (hg : g.Consistent) {item : ι} (hne : p ≠ q)
    (hcareful : (g.players p).tradeState = .acknowledge →
      (g.players p).tradePartner = some q → (g.players q).tradeState ≠ .accept) :
    (g.internalStartTrade p q item).Agreed := by
  rw [Game.internalStartTrade]
  dsimp only
  split
  · exact h
  next hready =>
  split
  · exact h
  next hready' =>
  rw [not_and_or, not_not, not_not] at hready
  rw [not_and_or, not_not, not_not] at hready'
  have hpair := hg.unpaired hready hready'
  -- Only players outside of this trade have accepted.
  have hothers : ∀ g' : Game π ι, (∀ r, r ≠ p → r ≠ q → g'.players r = g.players r) →
      (g'.players p).tradeState ≠ .accept → (g'.players q).tradeState ≠ .accept →
      g'.transfers = g.transfers → g'.Agreed := by
    intro g' hsame hp hq htransfers
    refine ⟨fun r t haccept hpartner => ?_, htransfers ▸ h.consented⟩
    have hrp : r ≠ p := by
      rintro rfl
      exact hp haccept
    have hrq : r ≠ q := by
      rintro rfl
      exact hq haccept
    rw [hsame r hrp hrq] at haccept hpartner ⊢
    have htp : t ≠ p := by
      rintro rfl
      exact (hpair r hrp hrq).1 hpartner
    have htq : t ≠ q := by
      rintro rfl
      exact (hpair r hrp hrq).2 hpartner
    rw [hsame t htp htq]
    exact h.accepted r t haccept hpartner
  split
  · refine hothers _ (fun r hrp hrq => ?_) ?_ ?_ rfl
    · dsimp only [setPlayer]
      rw [Function.update_of_ne hrq, Function.update_of_ne hrp]
    · dsimp only [setPlayer]
      rw [Function.update_of_ne hne, Function.update_self]
      exact nofun
    · dsimp only [setPlayer]
      rw [Function.update_self]
      exact nofun
  · next hknown =>
    refine hothers _ (fun r hrp _ => Function.update_of_ne hrp _ _) ?_ ?_ rfl
    · dsimp only [setPlayer]
      rw [Function.update_self]
      exact nofun
    · dsimp only [setPlayer]
      rw [Function.update_of_ne hne.symm]
      have hp := hg.symm q p (hready'.resolve_left hknown)
      rcases hready with hready | ⟨hready, -⟩
      · rw [(hg.none_iff p).mp hready] at hp
        cases hp
      · exact hcareful hready hp

theorem playerRequestTrade (h : g.Agreed) (hg : g.Consistent) {r : Request π ι}
    (ha : Careful g (.requestTrade r)) : (g.playerRequestTrade r).Agreed := by
  rw [Game.playerRequestTrade]
  split
  · next item hitem =>
    exact h.internalStartTrade hg (of_offeredItem hitem).1 (ha (by rw [hitem]; exact nofun))
  · exact h

theorem apply (h : g.Agreed) (hg : g.Consistent) {a : Action π ι} (ha : Careful g a) :
    (apply g a).Agreed := by
  cases a with
  | requestTrade r => exact h.playerRequestTrade hg ha
  | acceptTrade p a => exact h.playerAcceptTrade hg ha
  | closeTrade p => exact h.internalCloseTrade hg

end Agreed

/-- A world in which nobody trades. -/
def fresh (items : List ι) (isContainer : ι → Bool) (parents : ι → List ι) : Game π ι :=
  { items := items, isContainer := isContainer, parents := parents }

omit [DecidableEq π] in
theorem consistent_fresh {items : List ι} {isContainer : ι → Bool} {parents : ι → List ι} :
    (fresh items isContainer parents : Game π ι).Consistent where
  symm _ _ h := by cases h
  ne _ := nofun
  none_iff _ := iff_of_true rfl rfl
  notTransfer _ := nofun
  offering _ _ h := by cases h
  mem_iff _ _ := iff_of_false nofun nofun
  nodup := List.nodup_nil
  apart _ _ _ _ h := by cases h

omit [DecidableEq π] [DecidableEq ι] in
theorem agreed_fresh {items : List ι} {isContainer : ι → Bool} {parents : ι → List ι} :
    (fresh items isContainer parents : Game π ι).Agreed where
  accepted _ _ h := by cases h
  consented _ h := by cases h

/-- Partners, the map of offers and the offered items agree in every state, and every transfer is
what both players accepted if all steps are careful. -/
theorem trades_sound {items : List ι} {isContainer : ι → Bool} {parents : ι → List ι}
    (l : List (Action π ι)) :
    (∀ n, ((l.take n).foldl Trade.apply (fresh items isContainer parents)).Consistent) ∧
    (Run.Steps Trade.apply Careful (fresh items isContainer parents) l →
      ∀ n, ∀ t ∈ ((l.take n).foldl Trade.apply (fresh items isContainer parents)).transfers,
        t.Consented) := by
  constructor
  · intro n
    exact List.foldlRecOn (l.take n) Trade.apply consistent_fresh fun _ h a _ => h.apply a
  · intro hrun n
    rw [← List.take_append_drop n l, Run.steps_append] at hrun
    have hboth := Run.invariant (P := fun g : Game π ι => g.Consistent ∧ g.Agreed)
      (fun g a h ha => ⟨h.1.apply a, h.2.apply h.1 ha⟩) ⟨consistent_fresh, agreed_fresh⟩ hrun.1
    exact hboth.2.consented

/-- A world with two items, neither of them a container. -/
def twoItems : Game ℕ ℕ := fresh [10, 20] (fun _ => false) fun _ => []

/-- Player 0 offers item 10, player 1 offers item 20, and then both accept. -/
def exchange : List (Action ℕ ℕ) :=
  [.requestTrade { player := 0, tradePartner := 1, thing := some 10 },
    .requestTrade { player := 1, tradePartner := 0, thing := some 20 },
    .acceptTrade 0 {}, .acceptTrade 1 {}]

theorem steps_exchange : Run.Steps Trade.apply Careful twoItems exchange := by
  refine ⟨fun _ hstate => ?_, fun _ _ _ => by decide, fun q _ hq hstate => ?_,
    fun q _ hq _ _ _ => ?_, trivial⟩
  · cases hstate
  · obtain rfl : 1 = q := Option.some.inj hq
    cases hstate
  · obtain rfl : 0 = q := Option.some.inj hq
    decide

theorem consented_exchange :
    (∃ t, t ∈ (exchange.foldl Trade.apply twoItems).transfers) ∧
    ∀ n, ∀ t ∈ ((exchange.take n).foldl Trade.apply twoItems).transfers, t.Consented :=
  ⟨⟨⟨1, 0, some 20, some 10, (some 20, some 10), (some 10, some 20)⟩, by decide⟩,
    (trades_sound exchange).2 steps_exchange⟩

/-- Player 0 accepts before player 1 has offered anything, and gets what player 1 offers then. -/
def counterOffer : List (Action ℕ ℕ) :=
  [.requestTrade { player := 0, tradePartner := 1, thing := some 10 }, .acceptTrade 0 {},
    .requestTrade { player := 1, tradePartner := 0, thing := some 20 }, .acceptTrade 1 {}]

theorem not_consented_counterOffer :
    ∃ t ∈ (counterOffer.foldl Trade.apply twoItems).transfers, ¬ t.Consented := by
  refine ⟨⟨1, 0, some 20, some 10, (some 20, some 10), (some 10, none)⟩, by decide, ?_⟩
  rintro ⟨i, j, -, -, -, haccepted⟩
  cases haccepted

end Game

end OTServBR.Trade
