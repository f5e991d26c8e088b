import Mathlib.Data.Int.Notation
import Mathlib.Data.Option.Basic
import Mathlib.Logic.Function.Basic
import OTServBR.Lib.Bounded
import OTServBR.Lib.Run
import OTServBR.Lib.Wheel

/-! # The time of imbuements

A slot of an item packs the id and the seconds of its imbuement into one number.
Worn items wait in four buckets, one of which is visited at every tick. All slots
of an item share one visit, and the expiry of one of them clears them all.
-/

namespace OTServBR.Imbuing

def EVENT_IMBUEMENTINTERVAL : Int32 := 250
def EVENT_IMBUEMENT_BUCKETS : Int32 := 4

/-- What one visit takes from an imbuement. -/
def visitTime : Int32 := EVENT_IMBUEMENTINTERVAL * EVENT_IMBUEMENT_BUCKETS / 690

/-- The custom attribute of a slot; one that is absent reads as zero. -/
abbrev Slot := Int64

namespace Slot

def getImbuement (v : Slot) : UInt32 :=
  let info := v.toUInt64.toUInt32
  if info <<< 8 ≠ 0 then info else 0

/-- The check of the first loop of `checkImbuements`. -/
def expires (v : Slot) : Bool :=
  let duration := (v.getImbuement >>> 8).toInt32
  let newDuration := max 0 (duration - visitTime)
  0 < duration && newDuration = 0

/-- The last loop of `checkImbuements`. -/
def decrease (v : Slot) : Slot :=
  let info := v.getImbuement
  let duration := (info >>> 8).toInt32
  let decreaseTime := min visitTime duration
  let duration := duration - decreaseTime
  let id := (info &&& 0xFF).toInt32
  (duration <<< 8 ||| id).toInt64

def imbued (v : Slot) : Bool := v.getImbuement >>> 8 ≠ 0

end Slot

structure Game (ι π : Type*) where
  slots : ι → List Slot
  /-- The player in one of whose slots the item lies. -/
  wearer : ι → Option π
  inFight : π → Bool
  wheel : Wheel ι 4

namespace Game

variable {ι π : Type*} [DecidableEq ι] [DecidableEq π]

def startImbuementCountdown (g : Game ι π) (i : ι) : Game ι π := { g with wheel := g.wheel.add i }

/-- The part of `EquipItem` about imbuements. -/
def equipItem (g : Game ι π) (i : ι) : Game ι π :=
  if (g.slots i).any Slot.imbued then g.startImbuementCountdown i else g

def setSlots (g : Game ι π) (i : ι) (l : List Slot) : Game ι π :=
  { g with slots := Function.update g.slots i l }

/-- The body of the loop of `checkImbuements`; the flag tells whether the item stays in its
bucket. -/
def visit (g : Game ι π) (i : ι) : Game ι π × Bool :=
  match g.wearer i with
  | none => (g, false)
  | some player =>
    if !g.inFight player then (g, true)
    else
      let needUpdate := (g.slots i).any Slot.expires
      let g := if needUpdate then g.setSlots i ((g.slots i).map fun _ => 0) else g
      let g := g.setSlots i ((g.slots i).map Slot.decrease)
      -- the notification equips the item anew
      if needUpdate then (g.equipItem i, false) else (g, true)

/-- The loop over a bucket, with what stays in it. -/
def visitAll (g : Game ι π) : List ι → Game ι π × List ι
  | [] => (g, [])
  | i :: l =>
    let visited := g.visit i
    let rest := visited.1.visitAll l
    (rest.1, if visited.2 then i :: rest.2 else rest.2)

def cleanup (g : Game ι π) : Game ι π :=
  { g with wheel := g.wheel.flush fun _ => g.wheel.last }

def checkImbuements (g : Game ι π) : Game ι π :=
  let bucket := g.wheel.last + 1
  let visited := g.visitAll (g.wheel.buckets bucket)
  let wheel := visited.1.wheel.setBucket bucket visited.2
  { visited.1 with wheel := { wheel with last := bucket } }.cleanup

end Game

inductive Action (ι π : Type*)
  | equip (i : ι) (player : π)
  | deEquip (i : ι)
  | setInFight (player : π) (inFight : Bool)
  | cleanup
  | checkImbuements
  deriving DecidableEq, Repr

namespace Game

variable {ι π : Type*} [DecidableEq ι] [DecidableEq π] {g : Game ι π} {i j : ι}

def step (g : Game ι π) : Action ι π → Game ι π
  | .equip i player =>
    match g.wearer i with
    | none => { g with wearer := Function.update g.wearer i (some player) }.equipItem i
    | some _ => g
  | .deEquip i => { g with wearer := Function.update g.wearer i none }
  | .setInFight player inFight => { g with inFight := Function.update g.inFight player inFight }
  | .cleanup => g.cleanup
  | .checkImbuements => g.checkImbuements

/-- The item is worn by a player in fight. -/
def Fights (g : Game ι π) (i : ι) : Prop := ∃ player, g.wearer i = some player ∧ g.inFight player

instance (g : Game ι π) (i : ι) : Decidable (g.Fights i) :=
  decidable_of_iff ((g.wearer i).any g.inFight = true) (by
    cases h : g.wearer i <;> simp [Fights, h])

end Game

/-! ## The packed number -/

theorem setWidth_signExtend (x : BitVec 32) : (x.signExtend 64).setWidth 32 = x := by
  ext i hi
  simp [BitVec.getLsbD_signExtend, hi]
  intro h
  omega

theorem toInt_toInt32 {x : UInt32} (h : x.toNat < 2 ^ 31) : x.toInt32.toInt = x.toNat := by
  have hbits : x.toInt32.toInt = x.toBitVec.toInt := rfl
  rw [hbits, BitVec.toInt_eq_toNat_of_lt]
  · rfl
  · rw [UInt32.toNat_toBitVec]
    omega

theorem toNat_duration (info : UInt32) : (info >>> 8).toNat = info.toNat / 256 := by
  rw [UInt32.toNat_shiftRight]
  exact Nat.shiftRight_eq_div_pow _ 8

theorem toNat_id (info : UInt32) : (info &&& 0xFF).toNat = info.toNat % 256 := by
  rw [UInt32.toNat_and]
  exact Nat.and_two_pow_sub_one_eq_mod _ 8

theorem duration_lt (info : UInt32) : (info >>> 8).toNat < 2 ^ 24 := by
  have h := info.toNat_lt
  rw [toNat_duration]
  omega

/-- A duration and an id, put together, come apart again. -/
theorem toNat_pack {duration id : UInt32} (hd : duration.toNat < 2 ^ 24) (hid : id.toNat < 256) :
    (duration <<< 8 ||| id).toNat = duration.toNat * 256 + id.toNat := by
  have hshift : (duration <<< 8).toNat = duration.toNat <<< 8 := by
    rw [UInt32.toNat_shiftLeft]
    refine Nat.mod_eq_of_lt ?_
    change duration.toNat <<< 8 < _
    rw [Nat.shiftLeft_eq]
    omega
  rw [UInt32.toNat_or, hshift, ← Nat.shiftLeft_add_eq_or_of_lt (show id.toNat < 2 ^ 8 from hid),
    Nat.shiftLeft_eq]

namespace Slot

variable {v : Slot}

/-- What a visit makes of the number of a slot, if the slot is on its own. -/
def next (info : UInt32) : UInt32 :=
  let duration := info >>> 8
  if duration ≤ 1 then 0 else (duration - 1) <<< 8 ||| info &&& 0xFF

/-- A slot is empty, or holds an id and a time that is left. -/
def Valid (v : Slot) : Prop :=
  v.getImbuement = 0 ∨ v.getImbuement >>> 8 ≠ 0 ∧ v.getImbuement &&& 0xFF ≠ 0

instance (v : Slot) : Decidable v.Valid := inferInstanceAs (Decidable (_ ∨ _))

theorem getImbuement_of_low {info : UInt32} (hv : v.toUInt64.toUInt32 = info)
    (hid : info.toNat % 256 ≠ 0) : v.getImbuement = info := by
  have hshift : info <<< 8 ≠ 0 := by
    intro h
    have hnat : (info <<< 8).toNat = 0 := by rw [h]; rfl
    rw [UInt32.toNat_shiftLeft] at hnat
    change (info.toNat <<< 8) % 2 ^ 32 = 0 at hnat
    rw [Nat.shiftLeft_eq] at hnat
    omega
  simp [getImbuement, hv, hshift]

theorem min_visitTime {x : UInt32} (h : x.toNat < 2 ^ 24) :
    min visitTime x.toInt32 = (if x = 0 then (0 : UInt32) else 1).toInt32 := by
  split
  · subst x
    rfl
  · rename_i hx
    have hpos : x.toNat ≠ 0 := fun h0 => hx (UInt32.toNat_inj.mp h0)
    have hle : visitTime ≤ x.toInt32 := by
      rw [Int32.le_iff_toInt_le, toInt_toInt32 (by omega)]
      change (1 : ℤ) ≤ _
      omega
    exact if_pos hle

theorem decrease_low (v : Slot) : v.decrease.toUInt64.toUInt32 =
    (v.getImbuement >>> 8 - if v.getImbuement >>> 8 = 0 then 0 else 1) <<< 8 |||
      v.getImbuement &&& 0xFF := by
  unfold decrease
  simp only [min_visitTime (duration_lt v.getImbuement), ← UInt32.toInt32_sub]
  apply UInt32.toBitVec_inj.mp
  simp [setWidth_signExtend]

theorem expires_iff (v : Slot) : v.expires ↔ v.getImbuement >>> 8 = 1 := by
  have hlt := duration_lt v.getImbuement
  unfold expires
  generalize v.getImbuement >>> 8 = x at hlt ⊢
  have hx : x.toInt32.toInt = x.toNat := toInt_toInt32 (by omega)
  rcases Nat.lt_trichotomy x.toNat 1 with h | h | h
  · obtain rfl : x = 0 := UInt32.toNat_inj.mp (Nat.lt_one_iff.mp h)
    decide
  · obtain rfl : x = 1 := UInt32.toNat_inj.mp h
    decide
  · have hne : x ≠ 1 := by
      rintro rfl
      exact absurd h (by decide)
    have hle : (1 : UInt32) ≤ x := UInt32.le_iff_toNat_le.mpr h.le
    have hsub : (x.toInt32 - visitTime).toInt = x.toNat - 1 := by
      change (x - 1).toInt32.toInt = _
      rw [toInt_toInt32] <;> rw [UInt32.toNat_sub_of_le _ _ hle]
      · change ((x.toNat - 1 : ℕ) : ℤ) = _
        omega
      · omega
    have hmax : max 0 (x.toInt32 - visitTime) = x.toInt32 - visitTime := by
      refine if_pos ?_
      rw [Int32.le_iff_toInt_le, hsub]
      change (0 : ℤ) ≤ _
      omega
    have hpos : x.toInt32 - visitTime ≠ 0 := by
      intro h0
      rw [h0] at hsub
      change (0 : ℤ) = _ at hsub
      omega
    simp [hmax, hpos, hne]

theorem imbued_iff (v : Slot) : v.imbued ↔ v.getImbuement >>> 8 ≠ 0 := by
  simp [imbued]

theorem Valid.getImbuement_eq_zero (h : v.Valid) (hv : ¬ v.imbued) : v.getImbuement = 0 := by
  rcases h with h | h
  · exact h
  · exact absurd ((imbued_iff v).mpr h.1) hv

/-- A slot that neither is empty nor expires keeps its id and loses one second. -/
theorem decrease_of_two_le (h : v.Valid) (hv : 2 ≤ (v.getImbuement >>> 8).toNat) :
    v.decrease.getImbuement =
        (v.getImbuement >>> 8 - 1) <<< 8 ||| v.getImbuement &&& 0xFF ∧ v.decrease.Valid := by
  have hlt := duration_lt v.getImbuement
  have hne : v.getImbuement >>> 8 ≠ 0 := by
    intro h0
    rw [h0] at hv
    exact absurd hv (by decide)
  have hid : v.getImbuement &&& 0xFF ≠ 0 := by
    rcases h with h | h
    · rw [h] at hne
      exact absurd rfl hne
    · exact h.2
  have hid' : (v.getImbuement &&& 0xFF).toNat ≠ 0 := fun h0 => hid (UInt32.toNat_inj.mp h0)
  have hidlt : (v.getImbuement &&& 0xFF).toNat < 256 := by
    rw [toNat_id]
    omega
  have hle : (1 : UInt32) ≤ v.getImbuement >>> 8 :=
    UInt32.le_iff_toNat_le.mpr (Nat.le_trans (by decide) hv)
  have hsub : (v.getImbuement >>> 8 - 1).toNat = (v.getImbuement >>> 8).toNat - 1 :=
    UInt32.toNat_sub_of_le _ _ hle
  have hpack := @toNat_pack (v.getImbuement >>> 8 - 1)
    (v.getImbuement &&& 0xFF) (by omega) hidlt
  have hlow := v.decrease_low
  rw [if_neg hne] at hlow
  have hget := getImbuement_of_low hlow (by omega)
  refine ⟨hget, Or.inr ⟨fun h0 => ?_, fun h0 => ?_⟩⟩
  · have := toNat_duration v.decrease.getImbuement
    rw [h0, hget, hpack] at this
    change 0 = _ at this
    omega
  · have := toNat_id v.decrease.getImbuement
    rw [h0, hget, hpack] at this
    change 0 = _ at this
    omega

theorem decrease_of_not_imbued (h : v.Valid) (hv : ¬ v.imbued) : v.decrease.getImbuement = 0 := by
  have hzero := h.getImbuement_eq_zero hv
  have hlow := v.decrease_low
  rw [hzero] at hlow
  have hlow' : v.decrease.toUInt64.toUInt32 = 0 := hlow
  simp [getImbuement, hlow']

/-- On a slot that does not expire a visit does what it should. -/
theorem decrease_spec (h : v.Valid) (hexpires : ¬ v.expires) :
    v.decrease.getImbuement = next v.getImbuement ∧ v.decrease.Valid := by
  rw [expires_iff] at hexpires
  by_cases hv : v.imbued
  · rw [imbued_iff] at hv
    have h0 : (v.getImbuement >>> 8).toNat ≠ 0 := fun h0 => hv (UInt32.toNat_inj.mp h0)
    have h1 : (v.getImbuement >>> 8).toNat ≠ 1 := fun h1 => hexpires (UInt32.toNat_inj.mp h1)
    have htwo : 2 ≤ (v.getImbuement >>> 8).toNat := by omega
    obtain ⟨hget, hvalid⟩ := decrease_of_two_le h htwo
    have hnot : ¬ v.getImbuement >>> 8 ≤ 1 := by
      rw [UInt32.le_iff_toNat_le]
      change ¬ _ ≤ 1
      omega
    exact ⟨by rw [hget, next, if_neg hnot], hvalid⟩
  · have hget := decrease_of_not_imbued h hv
    rw [hget, h.getImbuement_eq_zero hv]
    exact ⟨rfl, Or.inl hget⟩

/-- Where all the imbuements expire, clearing the slots does what it should. -/
theorem next_of_expires (hexpires : v.imbued → v.expires) (h : v.Valid) :
    next v.getImbuement = 0 := by
  by_cases hv : v.imbued
  · have h1 := (expires_iff v).mp (hexpires hv)
    simp [next, h1]
  · rw [h.getImbuement_eq_zero hv]
    rfl

end Slot

/-- The slots of an item in fight after a visit. -/
def afterVisit (l : List Slot) : List Slot :=
  if l.any Slot.expires then l.map fun _ => Slot.decrease 0 else l.map Slot.decrease

/-- The imbuements of an item that expire at a visit are all or none of them. -/
def ExpireTogether (l : List Slot) : Prop :=
  (∃ v ∈ l, v.expires) → ∀ v ∈ l, v.imbued → v.expires

theorem getImbuement_decrease_zero : (Slot.decrease 0).getImbuement = 0 := by decide

theorem not_imbued_of_getImbuement {v : Slot} (h : v.getImbuement = 0) : v.imbued = false := by
  simp [Slot.imbued, h]

theorem not_expires_of_getImbuement {v : Slot} (h : v.getImbuement = 0) : v.expires = false := by
  rw [Bool.eq_false_iff, Ne, Slot.expires_iff, h]
  decide

theorem afterVisit_valid {l : List Slot} (h : ∀ v ∈ l, v.Valid) : ∀ v ∈ afterVisit l, v.Valid := by
  intro v hv
  unfold afterVisit at hv
  split at hv
  · obtain ⟨-, -, rfl⟩ := List.mem_map.mp hv
    exact Or.inl getImbuement_decrease_zero
  · rename_i hexpires
    obtain ⟨v, hmem, rfl⟩ := List.mem_map.mp hv
    have hv' : ¬ v.expires := fun hv' => hexpires (List.any_eq_true.mpr ⟨v, hmem, hv'⟩)
    exact (Slot.decrease_spec (h v hmem) hv').2

theorem afterVisit_spec {l : List Slot} (h : ∀ v ∈ l, v.Valid) (htogether : ExpireTogether l) :
    (afterVisit l).map Slot.getImbuement = l.map fun v => Slot.next v.getImbuement := by
  unfold afterVisit
  split
  · rename_i hexpires
    rw [List.map_map]
    refine List.map_congr_left fun v hv => ?_
    rw [Slot.next_of_expires (htogether (List.any_eq_true.mp hexpires) v hv) (h v hv)]
    exact getImbuement_decrease_zero
  · rename_i hexpires
    rw [List.map_map]
    refine List.map_congr_left fun v hv => ?_
    have hv' : ¬ v.expires := fun hv' => hexpires (List.any_eq_true.mpr ⟨v, hv, hv'⟩)
    exact (Slot.decrease_spec (h v hv) hv').1

theorem afterVisit_not_imbued {l : List Slot} (h : l.any Slot.expires) :
    (afterVisit l).any Slot.imbued = false := by
  unfold afterVisit
  rw [if_pos h, List.any_eq_false]
  intro v hv
  obtain ⟨-, -, rfl⟩ := List.mem_map.mp hv
  rw [not_imbued_of_getImbuement getImbuement_decrease_zero]
  decide

theorem afterVisit_empty {l : List Slot} (h : ∀ v ∈ l, v.getImbuement = 0) :
    (afterVisit l).map Slot.getImbuement = l.map Slot.getImbuement := by
  have hvalid : ∀ v ∈ l, v.Valid := fun v hv => Or.inl (h v hv)
  have htogether : ExpireTogether l := by
    rintro ⟨v, hv, hexpires⟩
    rw [not_expires_of_getImbuement (h v hv)] at hexpires
    cases hexpires
  rw [afterVisit_spec hvalid htogether]
  refine List.map_congr_left fun v hv => ?_
  rw [h v hv]
  rfl

namespace Game

variable {ι π : Type*} {g : Game ι π} {i j : ι} {l : List ι}

/-! ## One visit -/

theorem equipItem_of_not_imbued (h : (g.slots i).any Slot.imbued = false) :
    g.equipItem i = g := by
  simp [equipItem, h]

variable [DecidableEq ι]

theorem visit_fst : (g.visit i).1 =
    if g.Fights i then g.setSlots i (afterVisit (g.slots i)) else g := by
  unfold visit
  split
  · rename_i hworn
    rw [if_neg]
    rintro ⟨player, hplayer, -⟩
    rw [hworn] at hplayer
    cases hplayer
  · rename_i player hplayer
    have hfights : g.Fights i ↔ g.inFight player := by simp [Fights, hplayer]
    by_cases hfight : g.inFight player
    · rw [if_pos (hfights.mpr hfight)]
      simp only [hfight, Bool.not_true, Bool.false_eq_true, ↓reduceIte]
      split
      · rename_i hexpires
        have hslots := afterVisit_not_imbued hexpires
        rw [equipItem_of_not_imbued]
        · simp [setSlots, afterVisit, hexpires]
        · simpa [setSlots, afterVisit, hexpires] using hslots
      · rename_i hexpires
        simp [setSlots, afterVisit, hexpires]
    · rw [if_neg (fun h => hfight (hfights.mp h))]
      simp [hfight]

theorem visit_snd : (g.visit i).2 ↔
    g.wearer i ≠ none ∧ ¬ (g.Fights i ∧ (g.slots i).any Slot.expires) := by
  unfold visit
  split
  · simp [*]
  · rename_i player hplayer
    have hfights : g.Fights i ↔ g.inFight player := by simp [Fights, hplayer]
    rw [hfights, hplayer]
    by_cases hfight : g.inFight player
    · simp only [hfight, Bool.not_true, Bool.false_eq_true, ↓reduceIte]
      split
      · simp [*]
      · simp [*]
    · simp [hfight]

@[simp] theorem visit_wearer : (g.visit i).1.wearer = g.wearer := by
  rw [visit_fst]
  split <;> rfl

@[simp] theorem visit_inFight : (g.visit i).1.inFight = g.inFight := by
  rw [visit_fst]
  split <;> rfl

@[simp] theorem visit_wheel : (g.visit i).1.wheel = g.wheel := by
  rw [visit_fst]
  split <;> rfl

@[simp] theorem visit_fights : (g.visit i).1.Fights j ↔ g.Fights j := by
  simp [Fights]

theorem visit_slots_of_ne (h : j ≠ i) : (g.visit i).1.slots j = g.slots j := by
  rw [visit_fst]
  split
  · simp [setSlots, h]
  · rfl

theorem visit_slots : (g.visit i).1.slots i =
    if g.Fights i then afterVisit (g.slots i) else g.slots i := by
  rw [visit_fst]
  split
  · simp [setSlots]
  · rfl

/-! ## The visits of a bucket -/

theorem visitAll_cons : g.visitAll (i :: l) = (((g.visit i).1.visitAll l).1,
    if (g.visit i).2 then i :: ((g.visit i).1.visitAll l).2 else ((g.visit i).1.visitAll l).2) :=
  rfl

@[simp] theorem visitAll_wearer : (g.visitAll l).1.wearer = g.wearer := by
  induction l generalizing g with
  | nil => rfl
  | cons i l ih => simp [visitAll_cons, ih]

@[simp] theorem visitAll_inFight : (g.visitAll l).1.inFight = g.inFight := by
  induction l generalizing g with
  | nil => rfl
  | cons i l ih => simp [visitAll_cons, ih]

@[simp] theorem visitAll_wheel : (g.visitAll l).1.wheel = g.wheel := by
  induction l generalizing g with
  | nil => rfl
  | cons i l ih => simp [visitAll_cons, ih]

theorem visitAll_sublist : (g.visitAll l).2.Sublist l := by
  induction l generalizing g with
  | nil => exact List.nil_sublist _
  | cons i l ih =>
    simp only [visitAll_cons]
    split
    · exact ih.cons_cons i
    · exact ih.cons i

theorem visitAll_slots_of_notMem (h : i ∉ l) : (g.visitAll l).1.slots i = g.slots i := by
  induction l generalizing g with
  | nil => rfl
  | cons j l ih =>
    obtain ⟨hj, hl⟩ := not_or.mp (List.mem_cons.not.mp h)
    simp only [visitAll_cons]
    rw [ih hl, visit_slots_of_ne hj]

/-- An item that stands in the bucket once is visited once. -/
theorem visitAll_of_count_eq_one (h : l.count i = 1) :
    (g.visitAll l).1.slots i = (if g.Fights i then afterVisit (g.slots i) else g.slots i) ∧
      ((g.visitAll l).2.count i = if (g.visit i).2 then 1 else 0) := by
  induction l generalizing g with
  | nil => cases h
  | cons j l ih =>
    simp only [visitAll_cons]
    by_cases hj : j = i
    · subst hj
      have hl : j ∉ l := by
        rw [List.count_cons_self] at h
        exact List.count_eq_zero.mp (by omega)
      have hrest : ((g.visit j).1.visitAll l).2.count j = 0 :=
        List.count_eq_zero.mpr fun hmem => hl (visitAll_sublist.subset hmem)
      refine ⟨by rw [visitAll_slots_of_notMem hl, visit_slots], ?_⟩
      split <;> simp [hrest]
    · rw [List.count_cons_of_ne hj] at h
      obtain ⟨hslots, hcount⟩ := ih (g := (g.visit j).1) h
      have hsame : (g.visit j).1.slots i = g.slots i := visit_slots_of_ne (Ne.symm hj)
      have hflag : ((g.visit j).1.visit i).2 ↔ (g.visit i).2 := by
        rw [visit_snd, visit_snd, hsame]
        simp
      refine ⟨by simp [hslots, hsame], ?_⟩
      simp only [hflag] at hcount
      by_cases hstays : (g.visit j).2 <;> simp [hstays, List.count_cons_of_ne hj, hcount]

/-! ## Ticks -/

theorem cleanup_entries : g.cleanup.wheel.entries i = g.wheel.entries i :=
  Wheel.entries_flush _

theorem checkImbuements_slots_of_notMem (h : i ∉ g.wheel.buckets (g.wheel.last + 1)) :
    g.checkImbuements.slots i = g.slots i := by
  simp only [checkImbuements, cleanup]
  exact visitAll_slots_of_notMem h

theorem checkImbuements_slots (h : (g.wheel.buckets (g.wheel.last + 1)).count i = 1) :
    g.checkImbuements.slots i =
      if g.Fights i then afterVisit (g.slots i) else g.slots i := by
  simp only [checkImbuements, cleanup]
  exact (visitAll_of_count_eq_one h).1

@[simp] theorem checkImbuements_wearer : g.checkImbuements.wearer = g.wearer := by
  simp [checkImbuements, cleanup]

@[simp] theorem checkImbuements_last : g.checkImbuements.wheel.last = g.wheel.last + 1 := by
  simp [checkImbuements, cleanup]

@[simp] theorem checkImbuements_pending : g.checkImbuements.wheel.pending = [] := by
  simp [checkImbuements, cleanup]

/-- The visited bucket keeps the items that stay. -/
theorem checkImbuements_entries :
    g.checkImbuements.wheel.entries i + (g.wheel.buckets (g.wheel.last + 1)).count i =
      g.wheel.entries i + (g.visitAll (g.wheel.buckets (g.wheel.last + 1))).2.count i := by
  have h := Wheel.entries_setBucket (w := g.wheel) (i := g.wheel.last + 1) (a := i)
    (g.visitAll (g.wheel.buckets (g.wheel.last + 1))).2
  simp only [checkImbuements, cleanup, Wheel.entries_flush, visitAll_wheel]
  exact h

/-- A bucket gets only the items that wait, and only if it is the one that is visited. -/
theorem mem_checkImbuements_buckets {b : Fin 4} (hpending : i ∉ g.wheel.pending)
    (h : i ∈ g.checkImbuements.wheel.buckets b) : i ∈ g.wheel.buckets b := by
  simp only [checkImbuements, cleanup, Wheel.flush_buckets, visitAll_wheel,
    Wheel.setBucket_pending, List.mem_append, List.mem_filter] at h
  rcases h with h | h
  · by_cases hb : b = g.wheel.last + 1
    · subst hb
      rw [Wheel.setBucket_self] at h
      exact visitAll_sublist.subset h
    · rwa [Wheel.setBucket_of_ne hb] at h
  · exact absurd h.1 hpending

theorem mem_checkImbuements_buckets_of_ne {b : Fin 4} (hb : b ≠ g.wheel.last + 1)
    (h : i ∈ g.wheel.buckets b) : i ∈ g.checkImbuements.wheel.buckets b := by
  simp only [checkImbuements, cleanup, Wheel.flush_buckets, visitAll_wheel, List.mem_append]
  left
  rwa [Wheel.setBucket_of_ne hb]

/-! ## What every run keeps -/

/-- Every item waits in at most one place, every imbued item that is worn waits in one, and the
slots hold proper numbers. -/
structure Inv (g : Game ι π) : Prop where
  once : ∀ i, g.wheel.entries i ≤ 1
  queued : ∀ i, g.wearer i ≠ none → (g.slots i).any Slot.imbued → g.wheel.entries i ≠ 0
  valid : ∀ i, ∀ v ∈ g.slots i, v.Valid

theorem checkImbuements_inv (h : g.Inv) : g.checkImbuements.Inv := by
  have hcases (i : ι) : i ∉ g.wheel.buckets (g.wheel.last + 1) ∨
      (g.wheel.buckets (g.wheel.last + 1)).count i = 1 := by
    by_cases hi : i ∈ g.wheel.buckets (g.wheel.last + 1)
    · exact Or.inr (Wheel.bucket_unique (h.once i) hi).2.2
    · exact Or.inl hi
  constructor
  · intro i
    have hle := (visitAll_sublist (g := g)
      (l := g.wheel.buckets (g.wheel.last + 1))).count_le i
    have hentries := checkImbuements_entries (g := g) (i := i)
    have honce := h.once i
    omega
  · intro i hworn himbued
    rw [checkImbuements_wearer] at hworn
    have hentries := checkImbuements_entries (g := g) (i := i)
    rcases hcases i with hi | hi
    · rw [checkImbuements_slots_of_notMem hi] at himbued
      have hqueued := h.queued i hworn himbued
      rw [List.count_eq_zero.mpr hi] at hentries
      omega
    · have hkept := (visitAll_of_count_eq_one (g := g) hi).2
      have hstays : (g.visit i).2 := by
        refine visit_snd.mpr ⟨hworn, fun ⟨hfights, hexpires⟩ => ?_⟩
        rw [checkImbuements_slots hi, if_pos hfights,
          afterVisit_not_imbued hexpires] at himbued
        cases himbued
      rw [if_pos hstays] at hkept
      have hbucket := Wheel.bucket_count_le g.wheel (g.wheel.last + 1) i
      omega
  · intro i
    rcases hcases i with hi | hi
    · rw [checkImbuements_slots_of_notMem hi]
      exact h.valid i
    · rw [checkImbuements_slots hi]
      split
      · exact afterVisit_valid (h.valid i)
      · exact h.valid i

variable [DecidableEq π]

/-- An item is equipped only when no entry of an earlier time is left, and the imbuements of an
item that expire at a visit are all of them. -/
def Safe (g : Game ι π) : Action ι π → Prop
  | .equip i _ => g.wearer i = none → (g.slots i).any Slot.imbued → g.wheel.entries i = 0
  | .checkImbuements =>
    ∀ i ∈ g.wheel.buckets (g.wheel.last + 1), g.Fights i → ExpireTogether (g.slots i)
  | _ => True

instance (l : List Slot) : Decidable (ExpireTogether l) :=
  inferInstanceAs (Decidable (_ → _))

instance (g : Game ι π) (action : Action ι π) : Decidable (g.Safe action) :=
  match action with
  | .equip i _ => inferInstanceAs (Decidable
      (g.wearer i = none → (g.slots i).any Slot.imbued → g.wheel.entries i = 0))
  | .deEquip _ => isTrue trivial
  | .setInFight _ _ => isTrue trivial
  | .cleanup => isTrue trivial
  | .checkImbuements => inferInstanceAs (Decidable
      (∀ i ∈ g.wheel.buckets (g.wheel.last + 1), g.Fights i → ExpireTogether (g.slots i)))

theorem equip_inv (h : g.Inv) (player : π) (hsafe : g.Safe (.equip i player)) :
    (g.step (.equip i player)).Inv := by
  simp only [step]
  split
  · rename_i hfree
    unfold equipItem
    split
    · rename_i himbued
      have hnone := hsafe hfree himbued
      constructor
      · intro j
        have honce := h.once j
        simp only [startImbuementCountdown, Wheel.entries_add]
        split
        · subst j
          omega
        · exact honce
      · intro j hworn hj
        simp only [startImbuementCountdown, Wheel.entries_add]
        by_cases hji : j = i
        · subst hji
          simp
        · have hqueued := h.queued j (by simpa [startImbuementCountdown, hji] using hworn) hj
          omega
      · exact h.valid
    · rename_i himbued
      refine ⟨h.once, fun j hworn hj => ?_, h.valid⟩
      by_cases hji : j = i
      · subst hji
        exact absurd hj himbued
      · exact h.queued j (by simpa [hji] using hworn) hj
  · exact h

theorem step_inv (h : g.Inv) (action : Action ι π) (hsafe : g.Safe action) :
    (g.step action).Inv := by
  cases action with
  | equip i player => exact equip_inv h player hsafe
  | deEquip i =>
    refine ⟨h.once, fun j hworn hj => h.queued j (fun hnone => hworn ?_) hj, h.valid⟩
    simp only [step, Function.update_apply, hnone, ite_self]
  | setInFight player inFight => exact ⟨h.once, h.queued, h.valid⟩
  | cleanup =>
    refine ⟨fun j => ?_, fun j hworn hj => ?_, h.valid⟩
    · rw [step, cleanup_entries]
      exact h.once j
    · rw [step, cleanup_entries]
      exact h.queued j hworn hj
  | checkImbuements => exact checkImbuements_inv h

/-! ## One cycle -/

/-- Between the ticks the slots and the turn stay, and an item that is worn and waits in no list of
newcomers keeps its place. -/
theorem step_of_ne (action : Action ι π) (haction : action ≠ .checkImbuements)
    (hworn : g.wearer i ≠ none) (hpending : i ∉ g.wheel.pending) :
    (g.step action).slots = g.slots ∧ (g.step action).wheel.last = g.wheel.last ∧
      i ∉ (g.step action).wheel.pending ∧
      ∀ b, i ∈ (g.step action).wheel.buckets b ↔ i ∈ g.wheel.buckets b := by
  cases action with
  | equip j player =>
    simp only [step]
    split
    · rename_i hfree
      have hij : i ≠ j := by
        rintro rfl
        exact hworn hfree
      unfold equipItem
      split <;> simp [startImbuementCountdown, hij, hpending]
    · simp [hpending]
  | deEquip j => simp [step, hpending]
  | setInFight player inFight => simp [step, hpending]
  | cleanup => simp [step, cleanup, Wheel.flush_buckets, hpending]
  | checkImbuements => exact absurd rfl haction

/-- The item is in fight before every action of the list and after the last. -/
def StaysInFight (g : Game ι π) (i : ι) (actions : List (Action ι π)) : Prop :=
  Run.Steps step (fun g _ => g.Fights i) g actions ∧ (actions.foldl step g).Fights i

instance (g : Game ι π) (i : ι) (actions : List (Action ι π)) :
    Decidable (g.StaysInFight i actions) :=
  inferInstanceAs (Decidable (_ ∧ _))

omit [DecidableEq ι] [DecidableEq π] in
theorem Fights.worn (h : g.Fights i) : g.wearer i ≠ none := by
  obtain ⟨player, hplayer, -⟩ := h
  simp [hplayer]

theorem StaysInFight.tail {action : Action ι π} {actions : List (Action ι π)}
    (h : g.StaysInFight i (action :: actions)) : (g.step action).StaysInFight i actions :=
  ⟨h.1.2, h.2⟩

/-- Until its bucket has its turn an item keeps its slots. -/
theorem slots_of_unvisited (actions : List (Action ι π)) (m : ℕ)
    (hticks : actions.count .checkImbuements = m) (hfights : g.StaysInFight i actions)
    (hpending : i ∉ g.wheel.pending)
    (hbuckets : ∀ k : ℕ, 1 ≤ k → k ≤ m → i ∉ g.wheel.buckets (Wheel.turn g.wheel.last k)) :
    (actions.foldl step g).slots i = g.slots i := by
  induction actions generalizing g m with
  | nil => rfl
  | cons action actions ih =>
    rw [List.foldl_cons]
    by_cases haction : action = .checkImbuements
    · subst haction
      rw [List.count_cons_self] at hticks
      have hnot : i ∉ g.wheel.buckets (g.wheel.last + 1) := by
        rw [← Wheel.turn_one]
        exact hbuckets 1 le_rfl (by omega)
      rw [ih (m - 1) (by omega) hfights.tail (by simp [step]) ?_]
      · exact checkImbuements_slots_of_notMem hnot
      · intro k hk hkm hmem
        simp only [step, checkImbuements_last, Wheel.turn_add_one] at hmem
        exact hbuckets (k + 1) (by omega) (by omega)
          (mem_checkImbuements_buckets hpending hmem)
    · obtain ⟨hslots, hlast, hpending', hsame⟩ :=
        step_of_ne action haction hfights.1.1.worn hpending
      rw [List.count_cons_of_ne haction] at hticks
      rw [ih m hticks hfights.tail hpending' ?_, hslots]
      intro k hk hkm
      rw [hlast, hsame]
      exact hbuckets k hk hkm

/-- An item whose bucket has its turn after `k` ticks is visited once in a cycle. -/
theorem slots_of_waiting (actions : List (Action ι π)) (k m : ℕ)
    (hticks : actions.count .checkImbuements = m) (hk : 1 ≤ k) (hkm : k ≤ m) (hm : m ≤ 4)
    (hinv : g.Inv) (hsafe : Run.Steps step Safe g actions) (hfights : g.StaysInFight i actions)
    (hpending : i ∉ g.wheel.pending) (hbucket : i ∈ g.wheel.buckets (Wheel.turn g.wheel.last k)) :
    ((actions.foldl step g).slots i).map Slot.getImbuement =
      (g.slots i).map fun v => Slot.next v.getImbuement := by
  induction actions generalizing g k m with
  | nil =>
    rw [List.count_nil] at hticks
    omega
  | cons action actions ih =>
    rw [List.foldl_cons]
    have hnext := step_inv hinv action hsafe.1
    by_cases haction : action = .checkImbuements
    · subst haction
      rw [List.count_cons_self] at hticks
      obtain ⟨-, hothers, hcount⟩ := Wheel.bucket_unique (hinv.once i) hbucket
      by_cases hk1 : k = 1
      · subst hk1
        rw [Wheel.turn_one] at hbucket hothers hcount
        have hslots := checkImbuements_slots hcount
        rw [if_pos hfights.1.1] at hslots
        have hrest := slots_of_unvisited (g := g.step .checkImbuements) (i := i) actions (m - 1)
          (by omega) hfights.tail (by simp [step]) ?_
        · rw [hrest, step, hslots]
          exact afterVisit_spec (hinv.valid i) (hsafe.1 i hbucket hfights.1.1)
        · intro j hj hjm hmem
          simp only [step, checkImbuements_last, Wheel.turn_add_one] at hmem
          refine hothers _ ?_ (mem_checkImbuements_buckets hpending hmem)
          rw [← Wheel.turn_one]
          exact (Wheel.turn_ne (by omega) (by omega)).symm
      · have hne : g.wheel.last + 1 ≠ Wheel.turn g.wheel.last k := by
          rw [← Wheel.turn_one]
          exact Wheel.turn_ne (by omega) (by omega)
        have hslots : (g.step .checkImbuements).slots i = g.slots i :=
          checkImbuements_slots_of_notMem (hothers _ hne)
        rw [ih (k - 1) (m - 1) (by omega) (by omega) (by omega) (by omega) hnext hsafe.2
          hfights.tail (by simp [step]) ?_, hslots]
        simp only [step, checkImbuements_last, Wheel.turn_add_one, Nat.sub_add_cancel hk]
        exact mem_checkImbuements_buckets_of_ne hne.symm hbucket
    · obtain ⟨hslots, hlast, hpending', hsame⟩ :=
        step_of_ne action haction hfights.1.1.worn hpending
      rw [List.count_cons_of_ne haction] at hticks
      rw [ih k m hticks hk hkm hm hnext hsafe.2 hfights.tail hpending' ?_, hslots]
      rw [hlast, hsame]
      exact hbucket

theorem step_slots (action : Action ι π) (haction : action ≠ .checkImbuements) :
    (g.step action).slots = g.slots := by
  cases action with
  | equip j player =>
    simp only [step]
    split
    · unfold equipItem
      split <;> rfl
    · rfl
  | checkImbuements => exact absurd rfl haction
  | _ => rfl

/-- An item without imbuements stays as it is. -/
theorem slots_of_empty (actions : List (Action ι π)) (hinv : g.Inv)
    (hsafe : Run.Steps step Safe g actions) (hempty : ∀ v ∈ g.slots i, v.getImbuement = 0) :
    ((actions.foldl step g).slots i).map Slot.getImbuement =
      (g.slots i).map Slot.getImbuement := by
  induction actions generalizing g with
  | nil => rfl
  | cons action actions ih =>
    have hstep : ((g.step action).slots i).map Slot.getImbuement =
        (g.slots i).map Slot.getImbuement := by
      by_cases haction : action = .checkImbuements
      · subst haction
        by_cases hi : i ∈ g.wheel.buckets (g.wheel.last + 1)
        · rw [step, checkImbuements_slots (Wheel.bucket_unique (hinv.once i) hi).2.2]
          split
          · exact afterVisit_empty hempty
          · rfl
        · rw [step, checkImbuements_slots_of_notMem hi]
      · rw [step_slots action haction]
    rw [List.foldl_cons, ih (step_inv hinv action hsafe.1) hsafe.2 ?_, hstep]
    intro v hv
    obtain ⟨v', hv', heq⟩ := List.mem_map.mp (hstep ▸ List.mem_map_of_mem hv)
    rw [← heq]
    exact hempty v' hv'

theorem cycle_of_inv {cycle : List (Action ι π)} (hinv : g.Inv)
    (hsafe : Run.Steps step Safe g cycle) (hflushed : g.wheel.pending = [])
    (hticks : cycle.count .checkImbuements = 4) (hfights : g.StaysInFight i cycle) :
    ((cycle.foldl step g).slots i).map Slot.getImbuement =
      (g.slots i).map fun v => Slot.next v.getImbuement := by
  have hworn : g.wearer i ≠ none := by
    cases cycle with
    | nil => exact hfights.2.worn
    | cons action cycle => exact hfights.1.1.worn
  have hpending : i ∉ g.wheel.pending := by simp [hflushed]
  by_cases himbued : (g.slots i).any Slot.imbued
  · have hentries := hinv.queued i hworn himbued
    rw [Ne, Wheel.entries_eq_zero] at hentries
    push Not at hentries
    obtain ⟨b, hb⟩ := hentries hpending
    obtain ⟨k, hk, hk4, rfl⟩ := Wheel.exists_turn g.wheel.last b
    exact slots_of_waiting cycle k 4 hticks hk hk4 le_rfl hinv hsafe hfights hpending hb
  · have hempty : ∀ v ∈ g.slots i, v.getImbuement = 0 := fun v hv =>
      (hinv.valid i v hv).getImbuement_eq_zero fun h =>
        himbued (List.any_eq_true.mpr ⟨v, hv, h⟩)
    rw [slots_of_empty cycle hinv hsafe hempty]
    refine List.map_congr_left fun v hv => ?_
    rw [hempty v hv]
    rfl

/-- A game in which nothing is worn yet. -/
def start (slots : ι → List Slot) : Game ι π :=
  { slots, wearer := fun _ => none, inFight := fun _ => false,
    wheel := { pending := [], buckets := fun _ => [], last := 0 } }

omit [DecidableEq π] in
theorem start_inv {slots : ι → List Slot} (h : ∀ i, ∀ v ∈ slots i, v.Valid) :
    (start slots : Game ι π).Inv := by
  refine ⟨fun i => ?_, fun i hworn => absurd rfl hworn, h⟩
  simp [start, Wheel.entries]

/-- Along a run every item that stays in fight for a cycle of four ticks loses one second of every
imbuement, which keeps its id until it is cleared at its own end. A cycle is counted from a moment
at which the newcomers have their buckets, as after each tick. -/
theorem cycle_slots {slots : ι → List Slot} (hvalid : ∀ i, ∀ v ∈ slots i, v.Valid)
    {before cycle : List (Action ι π)}
    (hsafe : Run.Steps step Safe (start slots) (before ++ cycle))
    (hflushed : (before.foldl step (start slots)).wheel.pending = [])
    (hticks : cycle.count .checkImbuements = 4)
    (hfights : (before.foldl step (start slots)).StaysInFight i cycle) :
    ((cycle.foldl step (before.foldl step (start slots))).slots i).map Slot.getImbuement =
      ((before.foldl step (start slots)).slots i).map fun v => Slot.next v.getImbuement := by
  obtain ⟨hbefore, hcycle⟩ := Run.steps_append.mp hsafe
  have hinv : (before.foldl step (start slots)).Inv :=
    Run.invariant (P := Inv) (fun g action h hok => step_inv h action hok) (start_inv hvalid)
      hbefore
  exact cycle_of_inv hinv hcycle hflushed hticks hfights

/-- Two slots with the imbuements 1 and 2 and the seconds that are left to them. -/
def twoSlots (first second : Slot) : Unit → List Slot :=
  fun _ => [first <<< 8 ||| 1, second <<< 8 ||| 2]

/-- The item is put on in a fight and gets its bucket. -/
def intoFight : List (Action Unit Unit) := [.setInFight () true, .equip () (), .cleanup]

def fourTicks : List (Action Unit Unit) := List.replicate 4 .checkImbuements

theorem twoSlots_valid : ∀ i, ∀ v ∈ twoSlots 7200 300 i, v.Valid := by
  intro i v hv
  rcases List.mem_pair.mp hv with rfl | rfl <;> decide

theorem cycle_twoSlots :
    ((fourTicks.foldl step (intoFight.foldl step (start (twoSlots 7200 300)))).slots ()).map
        Slot.getImbuement =
      ((intoFight.foldl step (start (twoSlots 7200 300))).slots ()).map
        fun v => Slot.next v.getImbuement :=
  cycle_slots twoSlots_valid (by decide) (by decide) (by decide) (by decide)

/-- The end of the second imbuement clears the first. -/
theorem expiry_clears_other_slot :
    let g := intoFight.foldl step (start (twoSlots 7200 1))
    g.wheel.pending = [] ∧ g.StaysInFight () fourTicks ∧
      (g.slots ()).map (fun v => Slot.next v.getImbuement) =
        [(7199 : UInt32) <<< 8 ||| 1, 0] ∧
      ((fourTicks.foldl step g).slots ()).map Slot.getImbuement = [0, 0] := by
  decide

/-- Taken off and put on again before its turn, the item is visited twice in a cycle. -/
example :
    let g := (intoFight ++ [Action.deEquip (), .equip () (), .cleanup]).foldl step
      (start (twoSlots 7200 300) : Game Unit Unit)
    g.StaysInFight () fourTicks ∧
      ((fourTicks.foldl step g).slots ()).map Slot.getImbuement =
        [(7198 : UInt32) <<< 8 ||| 1, (298 : UInt32) <<< 8 ||| 2] := by
  decide

end Game

end OTServBR.Imbuing
