import Mathlib.Data.List.Nodup
import OTServBR.Persistence.ReadBack

/-! # Equal items

Stacks are merged if their items are equal. Items compare equal only if they
have the same values, but not the other way around: an attribute block without
attributes differs from none, and custom attributes are compared by the address
of their map, which no two items share.
-/

namespace OTServBR

attribute [ext] Attribute

namespace ItemAttributes

/-- The bits of a list of types. -/
def bitsOf (l : List ItemAttrType) : UInt32 := l.foldr (fun t bits => bits ||| t.mask) 0

/-- There is one entry for each type whose bit is set. -/
structure Coherent (a : ItemAttributes) : Prop where
  nodup : (a.attributes.map (·.type)).Nodup
  bits : a.attributeBits = bitsOf (a.attributes.map (·.type))

variable {a b : ItemAttributes} {t u : ItemAttrType} {l l' : List ItemAttrType}
  {f : AttributeValue → AttributeValue} {x y : Attribute}

/-! ### Bits -/

theorem mask_ne_zero (t : ItemAttrType) : t.mask ≠ 0 := by
  cases t <;> decide

theorem mask_and_bitsOf : t.mask &&& bitsOf l ≠ 0 ↔ t ∈ l := by
  induction l with
  | nil => simp [bitsOf]
  | cons u l ih =>
    have hcons : bitsOf (u :: l) = bitsOf l ||| u.mask := rfl
    rw [hcons, mask_and_or, ne_eq, UInt32.or_eq_zero_iff, not_and_or, ← ne_eq, ih, List.mem_cons,
      or_comm]
    by_cases htu : t = u
    · subst htu
      simp [mask_ne_zero]
    · simp [htu, ItemAttrType.mask_and_mask htu]

theorem bitsOf_perm (h : l.Perm l') : bitsOf l = bitsOf l' := by
  refine h.foldr_eq' (fun t _ u _ bits => ?_) 0
  rw [UInt32.or_assoc, UInt32.or_comm t.mask, ← UInt32.or_assoc]

theorem bitsOf_erase (h : l.Nodup) (ht : t ∈ l) : bitsOf (l.erase t) = bitsOf l &&& ~~~ t.mask := by
  have hcons : bitsOf l = bitsOf (l.erase t) ||| t.mask := bitsOf_perm (List.perm_cons_erase ht)
  have hnot : t.mask &&& bitsOf (l.erase t) = 0 :=
    not_not.mp fun hbit => h.not_mem_erase (mask_and_bitsOf.mp hbit)
  have hkept : bitsOf (l.erase t) &&& ~~~ t.mask = bitsOf (l.erase t) := by
    have hself := mask_and_not hnot (bitsOf (l.erase t))
    rwa [← UInt32.and_assoc, UInt32.and_self] at hself
  have hgone : t.mask &&& ~~~ t.mask = 0 := by simp
  rw [hcons, UInt32.and_comm, mask_and_or, UInt32.and_comm, hkept, UInt32.and_comm, hgone,
    UInt32.or_zero]

/-! ### Entries -/

theorem Coherent.hasAttribute_iff (h : a.Coherent) :
    a.hasAttribute t = true ↔ ∃ x ∈ a.attributes, x.type = t := by
  rw [hasAttribute, bne_iff_ne, h.bits, mask_and_bitsOf, List.mem_map]

theorem Coherent.getExistingAttr_eq_some (h : a.Coherent) :
    a.getExistingAttr t = some x ↔ x ∈ a.attributes ∧ x.type = t := by
  rw [getExistingAttr, Option.ite_none_right_eq_some, h.hasAttribute_iff]
  constructor
  · rintro ⟨-, hfind⟩
    exact ⟨List.mem_of_find?_eq_some hfind, by simpa using List.find?_some hfind⟩
  · rintro ⟨hx, htype⟩
    refine ⟨⟨x, hx, htype⟩, ?_⟩
    have hsome : (a.attributes.find? (·.type == t)).isSome :=
      List.find?_isSome.mpr ⟨x, hx, by simpa using htype⟩
    obtain ⟨y, hy⟩ := Option.isSome_iff_exists.mp hsome
    have hytype : y.type = t := by simpa using List.find?_some hy
    have hyx : y = x := List.inj_on_of_nodup_map h.nodup (List.mem_of_find?_eq_some hy) hx
      (hytype.trans htype.symm)
    rw [hy, hyx]

theorem Coherent.getExistingAttr_eq_none (h : a.Coherent) :
    a.getExistingAttr t = none ↔ a.hasAttribute t = false := by
  rw [← Bool.not_eq_true, h.hasAttribute_iff, Option.eq_none_iff_forall_ne_some, not_exists]
  exact forall_congr' fun x => by rw [ne_eq, h.getExistingAttr_eq_some]

theorem coherent_empty : ({} : ItemAttributes).Coherent := ⟨List.nodup_nil, rfl⟩

theorem map_type_updateFirst (l : List Attribute) :
    (updateFirst t f l).map (·.type) = l.map (·.type) := by
  induction l with
  | nil => rfl
  | cons x l ih =>
    unfold updateFirst
    split_ifs
    · rfl
    · rw [List.map_cons, List.map_cons, ih]

theorem Coherent.modifyAttr (h : a.Coherent) : (a.modifyAttr t f).Coherent := by
  unfold ItemAttributes.modifyAttr
  split_ifs with hold
  · exact ⟨by rw [map_type_updateFirst]; exact h.nodup, by rw [map_type_updateFirst]; exact h.bits⟩
  · have hnew : t ∉ a.attributes.map (·.type) := by
      intro hmem
      refine hold (Bool.and_eq_true_iff.mpr ⟨h.hasAttribute_iff.mpr (List.mem_map.mp hmem), ?_⟩)
      obtain ⟨x, hx, htype⟩ := List.mem_map.mp hmem
      exact List.any_eq_true.mpr ⟨x, hx, beq_iff_eq.mpr htype⟩
    exact ⟨List.nodup_cons.mpr ⟨hnew, h.nodup⟩, by rw [h.bits]; rfl⟩

theorem Coherent.removeAttribute (h : a.Coherent) : (a.removeAttribute t).Coherent := by
  unfold ItemAttributes.removeAttribute
  split_ifs with hnone
  · exact h
  · have htypes : (a.attributes.eraseP (·.type == t)).map (·.type) =
        (a.attributes.map (·.type)).erase t := by
      rw [List.erase_eq_eraseP', List.eraseP_map]
      rfl
    have hmem : t ∈ a.attributes.map (·.type) := by
      rw [List.mem_map, ← h.hasAttribute_iff]
      simpa using hnone
    refine ⟨?_, ?_⟩
    · rw [htypes]
      exact h.nodup.erase t
    · rw [htypes, bitsOf_erase h.nodup hmem, ← h.bits]

theorem Coherent.attributeBits_eq_iff (ha : a.Coherent) (hb : b.Coherent) :
    a.attributeBits = b.attributeBits ↔ ∀ t, a.hasAttribute t = b.hasAttribute t := by
  constructor
  · intro hbits t
    rw [hasAttribute, hasAttribute, hbits]
  · intro hall
    rw [ha.bits, hb.bits]
    refine bitsOf_perm ((List.perm_ext_iff_of_nodup ha.nodup hb.nodup).mpr fun t => ?_)
    rw [List.mem_map, List.mem_map, ← ha.hasAttribute_iff, ← hb.hasAttribute_iff, hall]

theorem isCustomAttrType_eq_false (h : t ≠ .custom) : t.isCustomAttrType = false := by
  cases t <;> first | rfl | exact absurd rfl h

/-- Blocks compare equal if they have the same entries and no custom attributes. -/
theorem attributesEqual_iff (ha : a.Coherent) (hb : b.Coherent) :
    Item.attributesEqual a b = true ↔ (∀ t, a.getExistingAttr t = b.getExistingAttr t) ∧
      a.hasAttribute .custom = false := by
  rw [Item.attributesEqual, Bool.and_eq_true, beq_iff_eq, ha.attributeBits_eq_iff hb,
    List.all_eq_true]
  simp only [List.all_eq_true, Bool.or_eq_true, bne_iff_ne, Bool.and_eq_true, beq_iff_eq,
    Bool.not_eq_true']
  constructor
  · rintro ⟨hbits, hentries⟩
    constructor
    · intro t
      cases hat : a.getExistingAttr t with
      | none =>
        rw [ha.getExistingAttr_eq_none, hbits] at hat
        exact (hb.getExistingAttr_eq_none.mpr hat).symm
      | some x =>
        obtain ⟨hx, hxt⟩ := ha.getExistingAttr_eq_some.mp hat
        obtain ⟨y, hy, hyt⟩ := hb.hasAttribute_iff.mp
          (hbits t ▸ ha.hasAttribute_iff.mpr ⟨x, hx, hxt⟩)
        obtain hne | ⟨-, hvalue⟩ := hentries x hx y hy
        · exact absurd (hxt.trans hyt.symm) hne
        · have hxy : x = y := Attribute.ext (hxt.trans hyt.symm) hvalue
          exact (hb.getExistingAttr_eq_some.mpr ⟨hxy ▸ hy, hxt⟩).symm
    · rw [← Bool.not_eq_true]
      intro hcustom
      obtain ⟨x, hx, hxt⟩ := ha.hasAttribute_iff.mp hcustom
      obtain ⟨y, hy, hyt⟩ := hb.hasAttribute_iff.mp (hbits .custom ▸ hcustom)
      obtain hne | ⟨hnot, -⟩ := hentries x hx y hy
      · exact hne (hxt.trans hyt.symm)
      · rw [hxt] at hnot
        exact absurd hnot (by decide)
  · rintro ⟨hsame, hcustom⟩
    constructor
    · intro t
      rw [Bool.eq_iff_iff, ← not_iff_not, Bool.not_eq_true, Bool.not_eq_true,
        ← ha.getExistingAttr_eq_none, ← hb.getExistingAttr_eq_none, hsame]
    · intro x hx y hy
      by_cases htype : x.type = y.type
      · right
        have hxy : x ∈ b.attributes ∧ x.type = x.type := by
          rw [← hb.getExistingAttr_eq_some, ← hsame, ha.getExistingAttr_eq_some]
          exact ⟨hx, rfl⟩
        have heq : x = y := List.inj_on_of_nodup_map hb.nodup hxy.1 hy htype
        have hplain : x.type ≠ .custom := by
          intro hxt
          rw [ha.hasAttribute_iff.mpr ⟨x, hx, hxt⟩] at hcustom
          cases hcustom
        exact ⟨isCustomAttrType_eq_false hplain, by rw [heq]⟩
      · exact Or.inl htype

end ItemAttributes

namespace Item

variable {types : Items} {i j : Item}

/-- Two items have the same id and the same value of every attribute. -/
def SameValues (i j : Item) : Prop :=
  i.id = j.id ∧ (∀ t, t ≠ .custom → i.stored t = j.stored t) ∧
    ∀ key, i.customMap.lookup key = j.customMap.lookup key

/-- Both items have an attribute block or none, and they have no map of custom attributes. -/
def Comparable (i j : Item) : Prop :=
  i.attributes.isSome = j.attributes.isSome ∧ i.hasAttribute .custom = false ∧
    j.hasAttribute .custom = false

theorem hasAttribute_eq (i : Item) (t : ItemAttrType) :
    i.hasAttribute t = i.getAttributes.hasAttribute t := by
  unfold hasAttribute getAttributes
  cases i.attributes with
  | none => simp [ItemAttributes.hasAttribute]
  | some a => rfl

theorem stored_of_hasAttribute {t : ItemAttrType} (h : i.hasAttribute t = false) :
    i.stored t = none := by
  rw [hasAttribute_eq] at h
  rw [stored, ItemAttributes.getExistingAttr, if_neg (by rw [h]; exact Bool.false_ne_true)]

/-- Without custom attributes the values are what is stored. -/
theorem sameValues_iff (hi : i.hasAttribute .custom = false) (hj : j.hasAttribute .custom = false) :
    SameValues i j ↔ i.id = j.id ∧ ∀ t, i.stored t = j.stored t := by
  refine and_congr_right fun _ => ⟨fun ⟨hvalues, _⟩ t => ?_, fun hstored => ?_⟩
  · by_cases ht : t = .custom
    · rw [ht, stored_of_hasAttribute hi, stored_of_hasAttribute hj]
    · exact hvalues t ht
  · refine ⟨fun t _ => hstored t, fun key => ?_⟩
    rw [customMap_congr (hstored .custom)]

theorem equals_of_isSome (h : i.attributes.isSome = j.attributes.isSome) : i.equals (some j) =
    (i.id == j.id && attributesEqual i.getAttributes j.getAttributes) := by
  unfold equals getAttributes
  cases hi : i.attributes with
  | none =>
    cases hj : j.attributes with
    | none => simp [hj, attributesEqual]
    | some b => rw [hi, hj] at h; cases h
  | some a =>
    cases hj : j.attributes with
    | none => rw [hi, hj] at h; cases h
    | some b => simp [hj]

theorem isSome_of_equals (h : i.equals (some j) = true) :
    i.attributes.isSome = j.attributes.isSome := by
  have hblocks := (Bool.and_eq_true_iff.mp h).2
  cases hi : i.attributes with
  | none =>
    cases hj : j.attributes with
    | none => rfl
    | some b => rw [hi, hj] at hblocks; cases hblocks
  | some a =>
    cases hj : j.attributes with
    | none => rw [hi, hj] at hblocks; cases hblocks
    | some b => rfl

theorem equals_iff_stored (hi : i.getAttributes.Coherent) (hj : j.getAttributes.Coherent) :
    i.equals (some j) = true ↔ i.attributes.isSome = j.attributes.isSome ∧ i.id = j.id ∧
      (∀ t, i.stored t = j.stored t) ∧ i.hasAttribute .custom = false := by
  rw [hasAttribute_eq]
  constructor
  · intro h
    have hblocks := isSome_of_equals h
    rw [equals_of_isSome hblocks, Bool.and_eq_true, beq_iff_eq,
      ItemAttributes.attributesEqual_iff hi hj] at h
    exact ⟨hblocks, h⟩
  · rintro ⟨hblocks, h⟩
    rw [equals_of_isSome hblocks, Bool.and_eq_true, beq_iff_eq,
      ItemAttributes.attributesEqual_iff hi hj]
    exact h

theorem hasAttribute_congr {t : ItemAttrType} (hi : i.getAttributes.Coherent)
    (hj : j.getAttributes.Coherent) (h : i.stored t = j.stored t) :
    i.hasAttribute t = false ↔ j.hasAttribute t = false := by
  rw [hasAttribute_eq, hasAttribute_eq, ← hi.getExistingAttr_eq_none, ← hj.getExistingAttr_eq_none]
  unfold stored at h
  rw [h]

/-- Items are equal if they have the same values and can be compared. -/
theorem equals_iff (hi : i.getAttributes.Coherent) (hj : j.getAttributes.Coherent) :
    i.equals (some j) = true ↔ SameValues i j ∧ Comparable i j := by
  rw [equals_iff_stored hi hj]
  constructor
  · rintro ⟨hblocks, hid, hstored, hcustom⟩
    have hcustom' := (hasAttribute_congr hi hj (hstored .custom)).mp hcustom
    exact ⟨(sameValues_iff hcustom hcustom').mpr ⟨hid, hstored⟩, hblocks, hcustom, hcustom'⟩
  · rintro ⟨hsame, hblocks, hcustom, hcustom'⟩
    obtain ⟨hid, hstored⟩ := (sameValues_iff hcustom hcustom').mp hsame
    exact ⟨hblocks, hid, hstored, hcustom⟩

/-! ### Histories of edits -/

/-- Items that are created, changed by setters and cloned. -/
inductive Edited (types : Items) : Item → Prop
  | created {type count : UInt16} {i : Item} : createItem types type count = some i → Edited types i
  | set {i : Item} (s : Setter) : Edited types i → Edited types (s.apply types i)
  | clone {i c : Item} : Edited types i → i.clone types = some c → Edited types c

theorem coherent_setIntAttr {t : ItemAttrType} {v : Int32} (h : i.getAttributes.Coherent) :
    (i.setIntAttr t v).getAttributes.Coherent := by
  rw [setIntAttr, getAttributes, Option.getD_some, ItemAttributes.setIntAttr]
  split_ifs
  · exact h
  · exact h.modifyAttr

theorem coherent_construct (cls : ItemClass) (id count : UInt16) :
    (construct types cls id count).getAttributes.Coherent := by
  have hnew : ∀ n, ({ cls := cls, id := id, count := n } : Item).getAttributes.Coherent :=
    fun _ => ItemAttributes.coherent_empty
  have hduration : ∀ k : Item, k.getAttributes.Coherent →
      (k.setDefaultDuration types).getAttributes.Coherent := by
    intro k hk
    unfold setDefaultDuration setDuration
    dsimp only
    split_ifs
    · exact coherent_setIntAttr hk
    · exact hk
  unfold construct setFluidType setItemCount setCharges
  dsimp only
  refine hduration _ ?_
  split_ifs
  · exact coherent_setIntAttr (hnew _)
  · exact hnew _
  · exact hnew _
  · exact hnew _
  · exact coherent_setIntAttr (hnew _)
  · exact coherent_setIntAttr (hnew _)
  · exact hnew _

theorem coherent_createItem {type count : UInt16} (h : createItem types type count = some i) :
    i.getAttributes.Coherent := by
  unfold createItem at h
  dsimp only at h
  split_ifs at h <;> exact Option.some.inj h ▸ coherent_construct _ _ _

theorem coherent_apply (s : Setter) (h : i.getAttributes.Coherent) :
    (s.apply types i).getAttributes.Coherent := by
  cases s with
  | itemCount n => exact h
  | subType n =>
    rw [Setter.apply, setSubType, setFluidType, setCharges]
    split_ifs
    · exact coherent_setIntAttr h
    · exact h
    · exact coherent_setIntAttr h
    · exact h
  | int t v => exact coherent_setIntAttr h
  | increaseInt t v =>
    rw [Setter.apply, increaseIntAttr, getAttributes, Option.getD_some,
      ItemAttributes.increaseIntAttr]
    split_ifs
    · exact h
    · exact h.modifyAttr
  | str t v =>
    rw [Setter.apply, setStrAttr, getAttributes, Option.getD_some, ItemAttributes.setStrAttr]
    split_ifs
    · exact h
    · exact h
    · exact h.modifyAttr
  | remove t =>
    unfold getAttributes at h
    rw [Setter.apply, removeAttribute, getAttributes]
    cases hi : i.attributes with
    | none => exact ItemAttributes.coherent_empty
    | some a =>
      rw [hi] at h
      exact h.removeAttribute
  | custom key v =>
    rw [Setter.apply, setCustomAttribute, getAttributes, Option.getD_some,
      ItemAttributes.setCustomAttribute]
    exact h.modifyAttr
  | removeCustom key =>
    rw [Setter.apply, removeCustomAttribute, getAttributes, Option.getD_some,
      ItemAttributes.removeCustomAttribute]
    split_ifs
    · exact h
    · exact h.modifyAttr

theorem clone_eq {c : Item} (h : i.clone types = some c) :
    ∃ created, createItem types i.id i.count.toUInt16 = some created ∧
      ((i.attributes = none ∧ c = created) ∨
        ∃ a, i.attributes = some a ∧ c = if 0 < i.getDuration then
          ({ created with attributes := some a } : Item).setDecaying .decayingTrue
          else { created with attributes := some a }) := by
  obtain ⟨created, hcreated, rfl⟩ := Option.map_eq_some_iff.mp h
  refine ⟨created, hcreated, ?_⟩
  cases hi : i.attributes with
  | none => exact Or.inl ⟨rfl, rfl⟩
  | some a =>
    have hduration : i.getDuration =
        ({ created with attributes := some a } : Item).getDuration := by
      unfold getDuration getIntAttr
      rw [hi]
    rw [hduration]
    exact Or.inr ⟨a, rfl, rfl⟩

theorem Edited.coherent (h : Edited types i) : i.getAttributes.Coherent := by
  induction h with
  | created h => exact coherent_createItem h
  | set s _ ih => exact coherent_apply s ih
  | clone _ hclone ih =>
    obtain ⟨created, hcreated, ⟨-, rfl⟩ | ⟨a, ha, rfl⟩⟩ := clone_eq hclone
    · exact coherent_createItem hcreated
    · rw [getAttributes, ha] at ih
      split_ifs
      · exact coherent_setIntAttr ih
      · exact ih

/-- A new item of the type has no attribute block. -/
def Bare (it : ItemType) : Prop :=
  (it.isFluidContainer || it.isSplash) = false ∧ (it.stackable = true ∨ it.charges = 0) ∧
    it.decayTime * 1000 = 0

theorem attributes_setDefaultDuration : (i.setDefaultDuration types).attributes = none ↔
    i.attributes = none ∧ (types.getItemType i.id).decayTime * 1000 = 0 := by
  unfold setDefaultDuration getDefaultDuration getType setDuration setIntAttr
  dsimp only
  split_ifs with hduration
  · simp only [bne_iff_ne] at hduration
    simp [hduration]
  · simp only [bne_iff_ne, not_not] at hduration
    simp [hduration]

theorem attributes_construct (cls : ItemClass) (id count : UInt16) :
    (construct types cls id count).attributes = none ↔ Bare (types.getItemType id) := by
  unfold construct setFluidType setCharges setItemCount setIntAttr Bare
  dsimp only
  rw [attributes_setDefaultDuration]
  split_ifs <;> grind

theorem createItem_eq {type count : UInt16} (h : createItem types type count = some i) :
    ∃ cls n, i = construct types cls i.id n := by
  unfold createItem at h
  dsimp only at h
  split_ifs at h <;> exact ⟨_, _, by rw [← Option.some.inj h, id_construct]⟩

theorem Edited.bare (h : Edited types i) (hnone : i.attributes = none) :
    Bare (types.getItemType i.id) := by
  have hcreated : ∀ {type count : UInt16} {k : Item}, createItem types type count = some k →
      k.attributes = none → Bare (types.getItemType k.id) := by
    intro type count k hk hknone
    obtain ⟨cls, n, hk⟩ := createItem_eq hk
    rw [hk] at hknone
    exact (attributes_construct cls k.id n).mp hknone
  induction h with
  | created h => exact hcreated h hnone
  | set s _ ih =>
    cases s with
    | itemCount n => exact ih hnone
    | subType n =>
      rw [Setter.apply, setSubType, setFluidType, setCharges] at hnone ⊢
      split_ifs at hnone ⊢
      · cases hnone
      · exact ih hnone
      · cases hnone
      · exact ih hnone
    | remove t => exact ih (Option.map_eq_none_iff.mp hnone)
    | int t v => cases hnone
    | increaseInt t v => cases hnone
    | str t v => cases hnone
    | custom key v => cases hnone
    | removeCustom key => cases hnone
  | clone _ hclone ih =>
    obtain ⟨created, h, ⟨-, rfl⟩ | ⟨a, ha, rfl⟩⟩ := clone_eq hclone
    · exact hcreated h hnone
    · split_ifs at hnone
      cases hnone

/-- What a clone is to have of an item: the id, no custom attributes, and a decay that is running
where there is a duration. -/
def KeptByClone (types : Items) (i : Item) : Prop :=
  (∀ created, createItem types i.id i.count.toUInt16 = some created → created.id = i.id) ∧
    i.hasAttribute .custom = false ∧
    (0 < i.getDuration → i.stored .decayState = some ⟨.decayState, .integer 1⟩)

theorem equals_clone_iff {c : Item} (hi : Edited types i) (hclone : i.clone types = some c) :
    i.equals (some c) = true ↔ KeptByClone types i := by
  have hc : Edited types c := hi.clone hclone
  rw [equals_iff_stored hi.coherent hc.coherent]
  obtain ⟨created, hcreated, ⟨hnone, rfl⟩ | ⟨a, ha, rfl⟩⟩ := clone_eq hclone
  · constructor
    · rintro ⟨-, hid, -, hcustom⟩
      refine ⟨fun k hk => ?_, hcustom, fun hpos => ?_⟩
      · cases hcreated.symm.trans hk
        exact hid.symm
      · rw [getDuration, getIntAttr, hnone] at hpos
        exact absurd hpos (by decide)
    · rintro ⟨hid, hcustom, -⟩
      obtain ⟨cls, n, hconstruct⟩ := createItem_eq hcreated
      have hcnone : c.attributes = none := by
        rw [hconstruct, attributes_construct, hid c hcreated]
        exact hi.bare hnone
      refine ⟨by rw [hnone, hcnone], (hid c hcreated).symm, fun t => ?_, hcustom⟩
      rw [stored, stored, getAttributes, getAttributes, hnone, hcnone]
  · have hbase : ∀ t, ({ created with attributes := some a } : Item).stored t = i.stored t := by
      intro t
      rw [stored, stored, getAttributes, getAttributes, ha]
    have hid : (∀ k, createItem types i.id i.count.toUInt16 = some k → k.id = i.id) ↔
        i.id = created.id := by
      rw [hcreated]
      constructor
      · exact fun h => (h created rfl).symm
      · rintro h k hk
        cases hk
        exact h.symm
    rw [KeptByClone, hid]
    by_cases hpos : 0 < i.getDuration
    · have hdecay : (ItemDecayState.decayingTrue.toInt32).toInt64 = 1 := by decide
      rw [if_pos hpos]
      constructor
      · rintro ⟨-, hid, hstored, hcustom⟩
        refine ⟨hid, hcustom, fun _ => ?_⟩
        rw [hstored, setDecaying, stored_setIntAttr_self (by decide), hdecay]
      · rintro ⟨hid, hcustom, hstate⟩
        refine ⟨by rw [ha]; rfl, hid, fun t => ?_, hcustom⟩
        by_cases ht : t = .decayState
        · rw [ht, hstate hpos, setDecaying, stored_setIntAttr_self (by decide), hdecay]
        · rw [setDecaying, stored_setIntAttr_of_ne (Ne.symm ht), hbase]
    · rw [if_neg hpos]
      constructor
      · rintro ⟨-, hid, -, hcustom⟩
        exact ⟨hid, hcustom, fun h => absurd h hpos⟩
      · rintro ⟨hid, hcustom, -⟩
        exact ⟨by rw [ha], hid, fun t => (hbase t).symm, hcustom⟩

/-- The comparison is the one of all values, for two items and for an item and its clone, exactly
where items of the same values can be compared and the clone keeps what the item has. -/
theorem equals_sameValues_iff (types : Items) (i j : Item) (hi : Edited types i)
    (hj : Edited types j) :
    ((i.equals (some j) = true ↔ SameValues i j) ∧
      ∀ c, i.clone types = some c → i.equals (some c) = true) ↔
    (SameValues i j → Comparable i j) ∧ ∀ c, i.clone types = some c → KeptByClone types i := by
  rw [equals_iff hi.coherent hj.coherent, and_iff_left_iff_imp]
  refine and_congr_right fun _ => forall₂_congr fun c hc => ?_
  exact equals_clone_iff hi hc

def coinTypes : Items where
  items id := { id := id, stackable := true, moveable := true, pickupable := true }
  reverseItemMap _ := none

/-- Some gold coins. -/
def coins : Item := { cls := .item, id := 2148, count := 50 }

theorem createItem_coins : createItem coinTypes 2148 50 = some coins := by decide

/-- Coins with an action id and other coins. -/
theorem equals_coins :
    let marked := (Setter.int .actionId 100).apply coinTypes coins
    (marked.equals (some coins) = true ↔ SameValues marked coins) ∧
      ∀ c, marked.clone coinTypes = some c → marked.equals (some c) = true := by
  refine (equals_sameValues_iff coinTypes ((Setter.int .actionId 100).apply coinTypes coins) coins
    (.set _ (.created createItem_coins)) (.created createItem_coins)).mpr ⟨?_, ?_⟩
  · rintro ⟨-, hvalues, -⟩
    exact absurd (hvalues .actionId (by decide)) (by decide)
  · intro c hc
    refine ⟨fun created hcreated => ?_, by decide, fun hpos => absurd hpos (by decide)⟩
    have hid : (createItem coinTypes 2148 50).map (·.id) = some 2148 := by decide
    have hcreated' : createItem coinTypes 2148 50 = some created := hcreated
    rw [hcreated'] at hid
    exact Option.some.inj hid

/-- Coins with a custom attribute do not equal their clone. -/
theorem not_equals_sameValues : ¬∀ (types : Items) (i j : Item), Edited types i → Edited types j →
    ((i.equals (some j) = true ↔ SameValues i j) ∧
      ∀ c, i.clone types = some c → i.equals (some c) = true) := by
  intro h
  have hclone : ∀ c, ((Setter.custom [97] (.integer 1)).apply coinTypes coins).clone coinTypes =
      some c → ((Setter.custom [97] (.integer 1)).apply coinTypes coins).equals (some c) = true :=
    (h coinTypes _ coins (.set _ (.created createItem_coins)) (.created createItem_coins)).2
  have hsome : (((Setter.custom [97] (.integer 1)).apply coinTypes coins).clone coinTypes).map
      (fun c => ((Setter.custom [97] (.integer 1)).apply coinTypes coins).equals (some c)) =
        some false := by
    decide
  obtain ⟨c, hc, hequals⟩ := Option.map_eq_some_iff.mp hsome
  rw [hclone c hc] at hequals
  cases hequals

end Item

end OTServBR
