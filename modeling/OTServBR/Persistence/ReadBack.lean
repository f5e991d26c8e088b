import OTServBR.Persistence.Framing

/-! # Reading back what an item wrote

The bytes of `serializeAttr`, read by a fresh item, are a chain of setters. A
written attribute comes back with its value when the value fits the width of
its encoding and the type of the item stores it where the reader puts it.
-/

namespace OTServBR

open PropWriteStream PropStream

namespace Item

/-! ## Reachable items -/

/-- A setter of the public interface with its arguments. -/
inductive Setter
  | itemCount (n : UInt8)
  | subType (n : UInt16)
  | int (t : ItemAttrType) (v : Int32)
  | increaseInt (t : ItemAttrType) (v : Int32)
  | str (t : ItemAttrType) (v : Str)
  | remove (t : ItemAttrType)
  | custom (key : Str) (v : CustomAttribute)
  | removeCustom (key : Str)
  deriving DecidableEq, Repr

def Setter.apply (types : Items) (i : Item) : Setter → Item
  | itemCount n => i.setItemCount n.toNat
  | subType n => i.setSubType types n
  | int t v => i.setIntAttr t v
  | increaseInt t v => i.increaseIntAttr t v
  | str t v => i.setStrAttr t v
  | remove t => i.removeAttribute t
  | custom key v => i.setCustomAttribute key v
  | removeCustom key => i.removeCustomAttribute key

/-- An item made by `CreateItem` and changed by setters. -/
def Reached (types : Items) (i : Item) : Prop :=
  ∃ type count i₀, createItem types type count = some i₀ ∧
    ∃ setters : List Setter, i = setters.foldl (Setter.apply types) i₀

def customMap (i : Item) : CustomAttributeMap := i.getAttributes.getCustomAttributeMap

/-- The keys of a map of custom attributes. -/
structure LowerKeys (m : CustomAttributeMap) : Prop where
  nodup : (m.map Prod.fst).Nodup
  lower : ∀ e ∈ m, asLowerCaseString e.1 = e.1

section Reached

variable {types : Items} {i j : Item} {t u : ItemAttrType}

theorem asLowerCaseString_idem (s : Str) :
    asLowerCaseString (asLowerCaseString s) = asLowerCaseString s := by
  have hbyte : ∀ c : UInt8, (if 65 ≤ (if 65 ≤ c && c ≤ 90 then c + 32 else c) &&
      (if 65 ≤ c && c ≤ 90 then c + 32 else c) ≤ 90
      then (if 65 ≤ c && c ≤ 90 then c + 32 else c) + 32
      else (if 65 ≤ c && c ≤ 90 then c + 32 else c)) = if 65 ≤ c && c ≤ 90 then c + 32 else c := by
    intro c
    by_cases hc : (65 ≤ c && c ≤ 90) = true
    · simp only [hc, if_true]
      have hu : ¬ (65 ≤ c + 32 && c + 32 ≤ 90) = true := by
        simp only [Bool.and_eq_true, decide_eq_true_eq, UInt8.le_iff_toNat_le] at hc ⊢
        rw [UInt8.toNat_add]
        simp only [UInt8.reduceToNat] at hc ⊢
        omega
      rw [if_neg hu]
    · simp [hc]
  unfold asLowerCaseString
  rw [List.map_map]
  exact List.map_congr_left fun c _ => hbyte c

theorem customMap_of_none (h : i.attributes = none) : i.customMap = [] := by
  rw [customMap, getAttributes, h]
  decide

theorem customMap_congr (h : i.stored .custom = j.stored .custom) : i.customMap = j.customMap := by
  unfold stored at h
  rw [customMap, customMap, ItemAttributes.getCustomAttributeMap,
    ItemAttributes.getCustomAttributeMap, h]

theorem customMap_setIntAttr (v : Int32) : (i.setIntAttr t v).customMap = i.customMap := by
  by_cases ht : t = .custom
  · subst ht
    rfl
  · exact customMap_congr (stored_setIntAttr_of_ne ht v)

theorem customMap_setStrAttr (v : Str) : (i.setStrAttr t v).customMap = i.customMap := by
  by_cases ht : t = .custom
  · subst ht
    rfl
  · exact customMap_congr (stored_setStrAttr_of_ne ht v)

theorem customMap_increaseIntAttr (v : Int32) : (i.increaseIntAttr t v).customMap = i.customMap := by
  by_cases ht : t = .custom
  · subst ht
    rfl
  · refine customMap_congr ?_
    rw [stored, increaseIntAttr, getAttributes, Option.getD_some, ItemAttributes.increaseIntAttr]
    split
    · rfl
    · exact ItemAttributes.getExistingAttr_modifyAttr_of_ne ht (ItemAttrType.mask_and_mask ht)

theorem customMap_setSubType (n : UInt16) : (i.setSubType types n).customMap = i.customMap := by
  unfold setSubType setFluidType setCharges
  dsimp only
  split_ifs
  · exact customMap_setIntAttr _
  · rfl
  · exact customMap_setIntAttr _
  · rfl

theorem customMap_setCustomAttribute (key : Str) (v : CustomAttribute) :
    (i.setCustomAttribute key v).customMap =
      i.customMap.filter (·.1 != asLowerCaseString key) ++ [(asLowerCaseString key, v)] := by
  rw [customMap, setCustomAttribute, getAttributes, Option.getD_some,
    ItemAttributes.setCustomAttribute, ItemAttributes.getCustomAttributeMap,
    ItemAttributes.getExistingAttr_modifyAttr_self]
  rfl

theorem customMap_removeCustomAttribute (key : Str) :
    (i.removeCustomAttribute key).customMap =
      i.customMap.filter (·.1 != asLowerCaseString key) := by
  rw [customMap, removeCustomAttribute, getAttributes, Option.getD_some,
    ItemAttributes.removeCustomAttribute]
  split
  · next h =>
    have hnone : i.customMap = [] := by
      unfold customMap ItemAttributes.getCustomAttributeMap ItemAttributes.getExistingAttr
      rw [if_neg (by simpa [getAttributes] using h)]
    exact hnone.trans (by rw [hnone]; rfl)
  · rw [ItemAttributes.getCustomAttributeMap, ItemAttributes.getExistingAttr_modifyAttr_self]
    rfl

theorem customMap_removeAttribute :
    (i.removeAttribute t).customMap = i.customMap ∨ (i.removeAttribute t).customMap = [] := by
  by_cases ht : t = .custom
  · subst ht
    right
    cases ha : i.attributes with
    | none => exact customMap_of_none (by rw [removeAttribute, ha]; rfl)
    | some a =>
      rw [customMap, removeAttribute, getAttributes, ha, Option.map_some, Option.getD_some,
        ItemAttributes.getCustomAttributeMap, ItemAttributes.getExistingAttr_removeAttribute_self]
  · exact .inl (customMap_congr (stored_removeAttribute_of_ne ht))

/-- A new item has at most a fluid, charges or a duration. -/
theorem stored_of_createItem {type count : UInt16} (h : createItem types type count = some i)
    (ht : t ∉ [.fluidType, .charges, .duration]) : i.stored t = none := by
  have hne : .fluidType ≠ t ∧ .charges ≠ t ∧ .duration ≠ t := by
    simp only [List.mem_cons, List.not_mem_nil, or_false, not_or] at ht
    exact ⟨Ne.symm ht.1, Ne.symm ht.2.1, Ne.symm ht.2.2⟩
  obtain ⟨hf, hc, hd⟩ := hne
  have hdur : ∀ k : Item, (k.setDefaultDuration types).stored t = k.stored t := by
    intro k
    unfold setDefaultDuration setDuration
    dsimp only
    split_ifs
    · exact stored_setIntAttr_of_ne hd _
    · rfl
  have hcon : ∀ cls id n, (construct types cls id n).stored t = none := by
    intro cls id n
    have hnew : ∀ n, ({ cls := cls, id := id, count := n } : Item).stored t = none := by
      intro n
      rw [stored, getAttributes, ItemAttributes.getExistingAttr,
        if_neg (by simp [ItemAttributes.hasAttribute])]
    unfold construct setFluidType setCharges
    dsimp only
    rw [hdur]
    split_ifs
    · exact (stored_setIntAttr_of_ne hf _).trans (hnew _)
    · exact hnew _
    · exact hnew _
    · exact hnew _
    · exact (stored_setIntAttr_of_ne hc _).trans (hnew _)
    · exact (stored_setIntAttr_of_ne hc _).trans (hnew _)
    · exact hnew _
  unfold createItem at h
  dsimp only at h
  split_ifs at h
  all_goals rw [← Option.some.inj h, hcon]

theorem customMap_of_stored (h : i.stored .custom = none) : i.customMap = [] := by
  unfold stored at h
  rw [customMap, ItemAttributes.getCustomAttributeMap, h]

theorem LowerKeys.filter {m : CustomAttributeMap} (h : LowerKeys m) (p : Str × CustomAttribute → Bool) :
    LowerKeys (m.filter p) :=
  ⟨h.nodup.sublist (List.filter_sublist.map _), fun e he => h.lower e (List.mem_filter.mp he).1⟩

/-- Setters keep the keys of custom attributes in lower case and apart. -/
theorem lowerKeys_apply (h : LowerKeys i.customMap) (s : Setter) :
    LowerKeys (s.apply types i).customMap := by
  cases s with
  | itemCount n => exact h
  | subType n => rwa [Setter.apply, customMap_setSubType]
  | int t v => rwa [Setter.apply, customMap_setIntAttr]
  | increaseInt t v => rwa [Setter.apply, customMap_increaseIntAttr]
  | str t v => rwa [Setter.apply, customMap_setStrAttr]
  | remove t =>
    rcases customMap_removeAttribute (i := i) (t := t) with ht | ht
    · rwa [Setter.apply, ht]
    · rw [Setter.apply, ht]
      exact ⟨List.nodup_nil, fun e he => absurd he List.not_mem_nil⟩
  | custom key v =>
    rw [Setter.apply, customMap_setCustomAttribute]
    have hf := h.filter (·.1 != asLowerCaseString key)
    constructor
    · rw [List.map_append, List.nodup_append]
      refine ⟨hf.nodup, by simp, ?_⟩
      rintro a ha b hb rfl
      obtain ⟨e, he, rfl⟩ := List.mem_map.mp ha
      simp only [List.map_cons, List.map_nil, List.mem_singleton] at hb
      simpa [hb] using (List.mem_filter.mp he).2
    · intro e he
      rcases List.mem_append.mp he with he | he
      · exact hf.lower e he
      · rw [List.mem_singleton.mp he]
        exact asLowerCaseString_idem key
  | removeCustom key =>
    rw [Setter.apply, customMap_removeCustomAttribute]
    exact h.filter _

theorem Reached.lowerKeys (h : i.Reached types) : LowerKeys i.customMap := by
  obtain ⟨type, count, i₀, hi₀, setters, rfl⟩ := h
  have hstart : LowerKeys i₀.customMap := by
    rw [customMap_of_stored (stored_of_createItem hi₀ (by decide))]
    exact ⟨List.nodup_nil, fun e he => absurd he List.not_mem_nil⟩
  clear hi₀
  induction setters generalizing i₀ with
  | nil => exact hstart
  | cons s setters ih => exact ih _ (lowerKeys_apply hstart s)

end Reached

/-! ## The setters that a stream calls -/

/-- What reading a field that may be missing does. -/
def onField (c : Bool) (set : Item → Item) (k : Item) : Item := if c then set k else k

def runSteps (steps : List (Item → Item)) (k : Item) : Item := steps.foldl (fun k f => f k) k

section Reads

variable (env : AttrEnv) (types : Items)

/-- The loop runs over a piece, calls some setters and goes on. -/
def Reads (bs : Str) (steps : List (Item → Item)) : Prop :=
  ∀ k rest, unserializeAttr env types k (bs ++ rest) = unserializeAttr env types (runSteps steps k) rest

variable {env types} {bs bs' : Str} {steps steps' : List (Item → Item)} {c : Bool}
  {attr : AttrTypes} {t : ItemAttrType} {i : Item}

theorem Reads.append (h : Reads env types bs steps) (h' : Reads env types bs' steps') :
    Reads env types (bs ++ bs') (steps ++ steps') := by
  intro k rest
  rw [List.append_assoc, h, h', runSteps, runSteps, runSteps, List.foldl_append]

theorem Reads.cons {f : Item → Item} (h : Reads env types bs [f])
    (h' : Reads env types bs' steps) : Reads env types (bs ++ bs') (f :: steps) :=
  h.append h'

theorem reads_field {payload : Str} {set : Item → Item}
    (ha : attr ∉ [.containerItems, .depotId, .teleDest, .houseDoorId, .sleeperGuid, .sleepStart])
    (h : c = true → ∀ k rest,
      baseReadAttr env types k attr (payload ++ rest) = .continue (set k) rest) :
    Reads env types (field c attr payload) [onField c set] := by
  intro k rest
  cases c with
  | false => rfl
  | true =>
    rw [field, if_pos rfl, List.cons_append, unserializeAttr_cons, readAttr_base ha, h rfl]
    rfl

theorem reads_strField
    (ha : attr ∉ [.containerItems, .depotId, .teleDest, .houseDoorId, .sleeperGuid, .sleepStart])
    (h : ∀ k s, baseReadAttr env types k attr s = readStr k s (k.setStrAttr t)) :
    Reads env types (field c attr (writeString (i.getStrAttr t)))
      [onField c fun k => k.setStrAttr t (fitString (i.getStrAttr t))] :=
  reads_field ha fun _ k rest => by rw [h, readStr_writeString]

theorem ofNat_mod_toNat (v : Int32) : (UInt32.ofNat (v.toUInt32.toNat % 256 ^ 4)).toInt32 = v := by
  rw [Nat.mod_eq_of_lt (by have := v.toUInt32.toNat_lt; omega), UInt32.ofNat_toNat]
  simp

/-- A 32-bit attribute is written and read without loss. -/
theorem reads_int32Field
    (ha : attr ∉ [.containerItems, .depotId, .teleDest, .houseDoorId, .sleeperGuid, .sleepStart])
    (h : ∀ k s, baseReadAttr env types k attr s = readInt32 k s t) :
    Reads env types (field c attr (write 4 (i.getIntAttr t).toUInt32.toNat))
      [onField c fun k => k.setIntAttr t (i.getIntAttr t)] :=
  reads_field ha fun _ k rest => by
    rw [h, readInt32, readNum_write, ofNat_mod_toNat]

end Reads

variable (types : Items) (i : Item)

def leadingSteps : List (Item → Item) :=
  let it := i.getType types
  [onField (it.stackable || it.isFluidContainer || it.isSplash) fun k =>
      k.setSubType types (UInt16.ofNat ((i.getSubType types).toNat % 256)),
    onField (i.getCharges != 0) fun k => k.setSubType types i.getCharges,
    onField (it.moveable && i.getActionId != 0) fun k => k.setActionId i.getActionId,
    onField (!(i.getStrAttr .text).isEmpty) fun k =>
      k.setStrAttr .text (fitString (i.getStrAttr .text))]

def dateSteps : List (Item → Item) :=
  [onField (i.getIntAttr .date != 0) fun k => k.setIntAttr .date (i.getIntAttr .date)]

/-- A text that is written when its attribute is present. -/
def strStep (t : ItemAttrType) : Item → Item :=
  onField (i.hasAttribute t) fun k => k.setStrAttr t (fitString (i.getStrAttr t))

/-- A number that is written when its attribute is present. -/
def intStep (t : ItemAttrType) : Item → Item :=
  onField (i.hasAttribute t) fun k => k.setIntAttr t (i.getIntAttr t)

def trailingSteps : List (Item → Item) :=
  [onField (!(i.getStrAttr .writer).isEmpty) fun k =>
      k.setStrAttr .writer (fitString (i.getStrAttr .writer)),
    onField (!(i.getStrAttr .description).isEmpty) fun k =>
      k.setStrAttr .description (fitString (i.getStrAttr .description)),
    onField (i.hasAttribute .duration) fun k => k.setDuration (max 0 (i.getIntAttr .duration)),
    onField (i.getDecaying == ItemDecayState.decayingTrue.toUInt8 ||
        i.getDecaying == ItemDecayState.decayingPending.toUInt8) fun k =>
      k.setDecaying .decayingPending,
    i.strStep .name, i.strStep .article, i.strStep .pluralName,
    i.intStep .weight, i.intStep .attack, i.intStep .defense, i.intStep .extraDefense,
    i.intStep .imbuingSlots, i.intStep .openContainer, i.intStep .armor,
    onField (i.hasAttribute .hitChance) fun k =>
      k.setIntAttr .hitChance
        (UInt8.ofNat ((i.getIntAttr .hitChance).toUInt32.toNat % 256)).toInt8.toInt32,
    onField (i.hasAttribute .shootRange) fun k =>
      k.setIntAttr .shootRange
        (UInt8.ofNat ((i.getIntAttr .shootRange).toUInt32.toNat % 256)).toUInt32.toInt32,
    i.strStep .special]

variable {env : AttrEnv} {types i}

theorem reads_leadingFields :
    Reads env types (i.leadingFields types) (i.leadingSteps types) := by
  have hcharges : UInt16.ofNat (i.getCharges.toNat % 256 ^ 2) = i.getCharges := by
    rw [Nat.mod_eq_of_lt (by have := i.getCharges.toNat_lt; omega), UInt16.ofNat_toNat]
  have haction : UInt16.ofNat (i.getActionId.toNat % 256 ^ 2) = i.getActionId := by
    rw [Nat.mod_eq_of_lt (by have := i.getActionId.toNat_lt; omega), UInt16.ofNat_toNat]
  unfold leadingFields
  dsimp only
  refine .cons (reads_field (by decide) fun _ k rest => ?_) ?_
  · rw [baseReadAttr, readNum_write]
    rfl
  refine .cons (reads_field (by decide) fun _ k rest => ?_) ?_
  · rw [baseReadAttr, readNum_write, hcharges]
  refine .cons (reads_field (by decide) fun _ k rest => ?_) ?_
  · rw [baseReadAttr, readNum_write, haction]
  exact reads_strField (by decide) fun _ _ => rfl

theorem reads_dateField : Reads env types i.dateField i.dateSteps :=
  reads_int32Field (by decide) fun _ _ => rfl

theorem reads_trailingFields : Reads env types i.trailingFields i.trailingSteps := by
  unfold trailingFields
  refine .cons (reads_strField (by decide) fun _ _ => rfl) ?_
  refine .cons (reads_strField (by decide) fun _ _ => rfl) ?_
  refine .cons (reads_field (by decide) fun _ k rest => ?_) ?_
  · rw [baseReadAttr, readNum_write, ofNat_mod_toNat]
  refine .cons (reads_field (by decide) fun hc k rest => ?_) ?_
  · have hv : (i.getDecaying.toNat % 256 ^ 1 != 0) = true := by
      rcases Bool.or_eq_true_iff.mp hc with h | h
      all_goals
        rw [eq_of_beq h]
        decide
    rw [baseReadAttr, readNum_write, if_pos hv]
  refine .cons (reads_strField (by decide) fun _ _ => rfl) ?_
  refine .cons (reads_strField (by decide) fun _ _ => rfl) ?_
  refine .cons (reads_strField (by decide) fun _ _ => rfl) ?_
  refine .cons (reads_int32Field (by decide) fun _ _ => rfl) ?_
  refine .cons (reads_int32Field (by decide) fun _ _ => rfl) ?_
  refine .cons (reads_int32Field (by decide) fun _ _ => rfl) ?_
  refine .cons (reads_int32Field (by decide) fun _ _ => rfl) ?_
  refine .cons (reads_int32Field (by decide) fun _ _ => rfl) ?_
  refine .cons (reads_int32Field (by decide) fun _ _ => rfl) ?_
  refine .cons (reads_int32Field (by decide) fun _ _ => rfl) ?_
  refine .cons (reads_field (by decide) fun _ k rest => ?_) ?_
  · rw [baseReadAttr, readNum_write]
    rfl
  refine .cons (reads_field (by decide) fun _ k rest => ?_) ?_
  · rw [baseReadAttr, readNum_write]
    rfl
  exact reads_strField (by decide) fun _ _ => rfl

/-- The setters called before the custom attributes are read. -/
def steps (types : Items) (i : Item) : List (Item → Item) :=
  i.leadingSteps types ++ (i.dateSteps ++ i.trailingSteps)

theorem reads_steps : Reads env types (i.leadingFields types ++ (i.dateField ++ i.trailingFields))
    (i.steps types) :=
  reads_leadingFields.append (reads_dateField.append reads_trailingFields)

/-! ## What the setters leave -/

section Stored

variable {k : Item} {c : Bool} {t u : ItemAttrType}

theorem stored_onField_int_of_ne (hne : t ≠ u) (v : Int32) :
    (onField c (fun k => k.setIntAttr t v) k).stored u = k.stored u := by
  cases c
  · rfl
  · exact stored_setIntAttr_of_ne hne v

theorem stored_onField_str_of_ne (hne : t ≠ u) (v : Str) :
    (onField c (fun k => k.setStrAttr t v) k).stored u = k.stored u := by
  cases c
  · rfl
  · exact stored_setStrAttr_of_ne hne v

theorem stored_onField_subType (hf : .fluidType ≠ u) (hc : .charges ≠ u) (n : UInt16) :
    (onField c (fun k => k.setSubType types n) k).stored u = k.stored u := by
  cases c
  · rfl
  · simp only [onField, if_true, setSubType, setFluidType, setCharges]
    split_ifs
    · exact stored_setIntAttr_of_ne hf _
    · rfl
    · exact stored_setIntAttr_of_ne hc _
    · rfl

theorem stored_onField_int (ht : t.isIntAttrType = true) (v : Int32) :
    (onField c (fun k => k.setIntAttr t v) k).stored t =
      if c then some ⟨t, .integer v.toInt64⟩ else k.stored t := by
  cases c
  · rfl
  · exact stored_setIntAttr_self ht v

theorem stored_onField_str (ht : t.isStrAttrType = true) (v : Str) :
    (onField c (fun k => k.setStrAttr t v) k).stored t =
      if c && v ≠ [] then some ⟨t, .string v⟩ else k.stored t := by
  cases c
  · rfl
  · by_cases hv : v = []
    · subst hv
      rw [if_neg (by simp), onField, if_pos rfl, stored, setStrAttr, getAttributes, Option.getD_some,
        ItemAttributes.setStrAttr, ht]
      rfl
    · rw [if_pos (by simpa using hv)]
      exact stored_setStrAttr_self ht hv

/-- The numbers read, with the condition under which each is written. -/
def readNumbers (types : Items) (i : Item) : List (ItemAttrType × Bool × Int32) :=
  [(.actionId, (i.getType types).moveable && i.getActionId != 0,
      if i.getActionId < 100 then 100 else i.getActionId.toUInt32.toInt32),
    (.date, i.getIntAttr .date != 0, i.getIntAttr .date),
    (.duration, i.hasAttribute .duration, max 0 (i.getIntAttr .duration)),
    (.decayState, i.getDecaying == ItemDecayState.decayingTrue.toUInt8 ||
      i.getDecaying == ItemDecayState.decayingPending.toUInt8,
      ItemDecayState.decayingPending.toInt32),
    (.weight, i.hasAttribute .weight, i.getIntAttr .weight),
    (.attack, i.hasAttribute .attack, i.getIntAttr .attack),
    (.defense, i.hasAttribute .defense, i.getIntAttr .defense),
    (.extraDefense, i.hasAttribute .extraDefense, i.getIntAttr .extraDefense),
    (.openContainer, i.hasAttribute .openContainer, i.getIntAttr .openContainer),
    (.armor, i.hasAttribute .armor, i.getIntAttr .armor),
    (.hitChance, i.hasAttribute .hitChance,
      (UInt8.ofNat ((i.getIntAttr .hitChance).toUInt32.toNat % 256)).toInt8.toInt32),
    (.shootRange, i.hasAttribute .shootRange,
      (UInt8.ofNat ((i.getIntAttr .shootRange).toUInt32.toNat % 256)).toUInt32.toInt32)]

/-- The texts read, with the condition under which each is written. -/
def readTexts (i : Item) : List (ItemAttrType × Bool) :=
  [(.text, !(i.getStrAttr .text).isEmpty), (.writer, !(i.getStrAttr .writer).isEmpty),
    (.description, !(i.getStrAttr .description).isEmpty), (.name, i.hasAttribute .name),
    (.article, i.hasAttribute .article), (.pluralName, i.hasAttribute .pluralName),
    (.special, i.hasAttribute .special)]

theorem stored_runSteps_number {v : Int32} (h : (t, c, v) ∈ i.readNumbers types) :
    (runSteps (i.steps types) k).stored t =
      if c then some ⟨t, .integer v.toInt64⟩ else k.stored t := by
  simp only [readNumbers, List.mem_cons, Prod.mk.injEq, List.not_mem_nil, or_false] at h
  rcases h with ⟨rfl, rfl, rfl⟩ | ⟨rfl, rfl, rfl⟩ | ⟨rfl, rfl, rfl⟩ | ⟨rfl, rfl, rfl⟩ |
    ⟨rfl, rfl, rfl⟩ | ⟨rfl, rfl, rfl⟩ | ⟨rfl, rfl, rfl⟩ | ⟨rfl, rfl, rfl⟩ | ⟨rfl, rfl, rfl⟩ |
    ⟨rfl, rfl, rfl⟩ | ⟨rfl, rfl, rfl⟩ | ⟨rfl, rfl, rfl⟩
  all_goals
    simp (disch := decide) only [runSteps, steps, leadingSteps, dateSteps, trailingSteps, strStep,
      intStep, setDuration, setDecaying, setActionId, List.foldl_append, List.foldl_cons,
      List.foldl_nil, stored_onField_int_of_ne, stored_onField_str_of_ne, stored_onField_subType,
      stored_onField_int]

theorem stored_runSteps_text (h : (t, c) ∈ i.readTexts) :
    (runSteps (i.steps types) k).stored t =
      if c && fitString (i.getStrAttr t) ≠ [] then some ⟨t, .string (fitString (i.getStrAttr t))⟩
      else k.stored t := by
  simp only [readTexts, List.mem_cons, Prod.mk.injEq, List.not_mem_nil, or_false] at h
  rcases h with ⟨rfl, rfl⟩ | ⟨rfl, rfl⟩ | ⟨rfl, rfl⟩ | ⟨rfl, rfl⟩ | ⟨rfl, rfl⟩ | ⟨rfl, rfl⟩ |
    ⟨rfl, rfl⟩
  all_goals
    simp (disch := decide) only [runSteps, steps, leadingSteps, dateSteps, trailingSteps, strStep,
      intStep, setDuration, setDecaying, setActionId, List.foldl_append, List.foldl_cons,
      List.foldl_nil, stored_onField_int_of_ne, stored_onField_str_of_ne, stored_onField_subType,
      stored_onField_str]

/-- The item after the count and the charges are read. -/
def readSubType (types : Items) (i k : Item) : Item :=
  let it := i.getType types
  onField (i.getCharges != 0) (fun k => k.setSubType types i.getCharges)
    (onField (it.stackable || it.isFluidContainer || it.isSplash)
      (fun k => k.setSubType types (UInt16.ofNat ((i.getSubType types).toNat % 256))) k)

theorem stored_runSteps_subType (h : t ∈ [.fluidType, .charges]) :
    (runSteps (i.steps types) k).stored t = (i.readSubType types k).stored t := by
  simp only [List.mem_cons, List.not_mem_nil, or_false] at h
  rcases h with rfl | rfl
  all_goals
    simp (disch := decide) only [runSteps, steps, leadingSteps, dateSteps, trailingSteps, strStep,
      intStep, setDuration, setDecaying, setActionId, List.foldl_append, List.foldl_cons,
      List.foldl_nil, stored_onField_int_of_ne, stored_onField_str_of_ne, readSubType]

theorem count_onField {f : Item → Item} (h : (f k).count = k.count) : (onField c f k).count = k.count := by
  cases c
  · rfl
  · exact h

theorem count_runSteps : (runSteps (i.steps types) k).count = (i.readSubType types k).count := by
  have hint : ∀ {c k} (t v), (onField c (fun k => k.setIntAttr t v) k).count = k.count :=
    fun _ _ => count_onField rfl
  have hstr : ∀ {c k} (t v), (onField c (fun k => k.setStrAttr t v) k).count = k.count :=
    fun _ _ => count_onField rfl
  simp only [runSteps, steps, leadingSteps, dateSteps, trailingSteps, strStep, intStep,
    setDuration, setDecaying, setActionId, List.foldl_append, List.foldl_cons, List.foldl_nil,
    hint, hstr, readSubType]

end Stored

section Conversions

variable {v : Int32}

theorem toNat_toUInt32 (v : Int32) : (v.toUInt32.toNat : ℤ) = v.toInt % 2 ^ 32 := by
  have hv : v.toInt = (v.toUInt32.toNat : ℤ).bmod (2 ^ 32) :=
    BitVec.toInt_eq_toNat_bmod v.toBitVec
  have hlt := v.toUInt32.toNat_lt
  rw [hv, Int.bmod_def]
  split <;> omega

/-- A signed byte holds the numbers from -128 to 127. -/
theorem toInt32_toInt8_of_le (h : -128 ≤ v.toInt ∧ v.toInt < 128) :
    (UInt8.ofNat (v.toUInt32.toNat % 256)).toInt8.toInt32 = v := by
  have hv := toNat_toUInt32 v
  apply Int32.toInt_inj.mp
  rw [Int8.toInt_toInt32]
  change BitVec.toInt (UInt8.ofNat _).toBitVec = _
  rw [BitVec.toInt_eq_toNat_bmod]
  change ((UInt8.ofNat (v.toUInt32.toNat % 256)).toNat : ℤ).bmod (2 ^ 8) = _
  rw [UInt8.toNat_ofNat', Int.bmod_def]
  split <;> omega

/-- A byte holds the numbers from 0 to 255. -/
theorem toInt32_toUInt32_of_le (h : 0 ≤ v.toInt ∧ v.toInt < 256) :
    (UInt8.ofNat (v.toUInt32.toNat % 256)).toUInt32.toInt32 = v := by
  have hv := toNat_toUInt32 v
  apply Int32.toInt_inj.mp
  change BitVec.toInt (UInt8.ofNat _).toUInt32.toBitVec = _
  rw [BitVec.toInt_eq_toNat_bmod]
  change ((UInt8.ofNat (v.toUInt32.toNat % 256)).toUInt32.toNat : ℤ).bmod (2 ^ 32) = _
  rw [UInt8.toNat_toUInt32, UInt8.toNat_ofNat', Int.bmod_def]
  split <;> omega

end Conversions

section SubType

variable {k : Item}

theorem getFluidType_of_stored {n : UInt16}
    (h : k.stored .fluidType = some ⟨.fluidType, .integer n.toUInt32.toInt32.toInt64⟩) :
    k.getFluidType = n := by
  rw [getFluidType, getIntAttr_of_stored rfl h]
  simp

theorem getCharges_of_stored {n : UInt16}
    (h : k.stored .charges = some ⟨.charges, .integer n.toUInt32.toInt32.toInt64⟩) :
    k.getCharges = n := by
  rw [getCharges, getIntAttr_of_stored rfl h]
  simp

end SubType

/-! ## The custom attributes -/

section Custom

variable {m : CustomAttributeMap} {k : Item} {u : ItemAttrType}

/-- Whether a custom value is read back as it is. -/
def customFits : CustomAttribute → Bool
  | .blank => false
  | .string v => v.length ≤ 0xFFFF
  | _ => true

theorem fitString_eq {s : Str} (h : s.length ≤ 0xFFFF) : fitString s = s := by
  rw [fitString, if_neg (by omega)]

theorem unserialize_serialize_of_fits {c : CustomAttribute} (h : customFits c = true) (rest : Str) :
    CustomAttribute.unserialize (c.serialize ++ rest) = .ok (c, rest) := by
  have hmod : ∀ n : UInt64, UInt64.ofNat (n.toNat % 256 ^ 8) = n := fun n => by
    rw [Nat.mod_eq_of_lt (by have := n.toNat_lt; omega), UInt64.ofNat_toNat]
  unfold CustomAttribute.serialize
  rw [List.append_assoc]
  cases c with
  | blank => cases h
  | string v =>
    have hv := fitString_eq (of_decide_eq_true h)
    simp [CustomAttribute.unserialize, CustomAttribute.which, CustomAttribute.payload, hv]
  | integer v =>
    simp only [CustomAttribute.unserialize, CustomAttribute.which, CustomAttribute.payload,
      CustomAttribute.readNum, read_write, Nat.reducePow, Nat.reduceMod]
    have hv := hmod v.toUInt64
    simp only [Nat.reducePow] at hv
    rw [hv]
    simp
  | double bits =>
    simp only [CustomAttribute.unserialize, CustomAttribute.which, CustomAttribute.payload,
      CustomAttribute.readNum, read_write, Nat.reducePow, Nat.reduceMod]
    have hv := hmod bits
    simp only [Nat.reducePow] at hv
    rw [hv]
  | bool v =>
    simp only [CustomAttribute.unserialize, CustomAttribute.which, CustomAttribute.payload,
      CustomAttribute.readNum, read_write, Nat.reducePow, Nat.reduceMod]
    cases v <;> rfl

/-- The setters called while a map is read. -/
def setCustoms (m : CustomAttributeMap) (k : Item) : Item :=
  m.foldl (fun k e => k.setCustomAttribute e.1 e.2) k

theorem readCustom_of_fits (h : ∀ e ∈ m, e.1.length ≤ 0xFFFF ∧ customFits e.2 = true)
    (k : Item) (rest : Str) :
    readCustom m.length k (serializeCustom m ++ rest) = .continue (setCustoms m k) rest := by
  induction m generalizing k with
  | nil => rfl
  | cons e m ih =>
    obtain ⟨hkey, hval⟩ := h e (by simp)
    rw [serializeCustom_cons_append, List.length_cons, readCustom, readString_writeString, fitString_eq hkey]
    dsimp only
    rw [unserialize_serialize_of_fits hval]
    exact ih (fun e he => h e (by simp [he])) _

/-- Entries with new keys in lower case are appended. -/
theorem customMap_setCustoms (h : LowerKeys (k.customMap ++ m)) :
    (setCustoms m k).customMap = k.customMap ++ m := by
  induction m generalizing k with
  | nil => simp [setCustoms]
  | cons e m ih =>
    have hkey : asLowerCaseString e.1 = e.1 := h.lower e (by simp)
    have hfilter : k.customMap.filter (·.1 != e.1) = k.customMap := by
      refine List.filter_eq_self.mpr fun a ha => ?_
      have hnd := h.nodup
      rw [List.map_append, List.nodup_append] at hnd
      exact bne_iff_ne.mpr (hnd.2.2 _ (List.mem_map_of_mem ha) e.1 (by simp))
    have hset : (k.setCustomAttribute e.1 e.2).customMap = k.customMap ++ [e] := by
      rw [customMap_setCustomAttribute, hkey, hfilter]
    have hrest : (setCustoms m (k.setCustomAttribute e.1 e.2)).customMap =
        (k.customMap ++ [e]) ++ m := by
      rw [← hset]
      exact ih (by rw [hset, List.append_assoc]; exact h)
    rw [setCustoms, List.foldl_cons]
    exact hrest.trans (by simp)

theorem stored_readCustom (hu : .custom ≠ u) (n : ℕ) (k : Item) (s : Str) :
    (readCustom n k s).item.stored u = k.stored u := by
  induction n generalizing k s with
  | zero => rfl
  | succ n ih =>
    unfold readCustom
    split
    · rfl
    · split
      · rfl
      · exact (ih _ _).trans (stored_setCustomAttribute hu _ _)

theorem count_readCustom (n : ℕ) (k : Item) (s : Str) : (readCustom n k s).item.count = k.count := by
  induction n generalizing k s with
  | zero => rfl
  | succ n ih =>
    unfold readCustom
    split
    · rfl
    · split
      · rfl
      · exact ih _ _

end Custom

/-- The item that has read everything `Item::serializeAttr` wrote. -/
def readItem (types : Items) (i k : Item) : Item :=
  if i.hasAttribute .custom then
    (readCustom i.customMap.length (runSteps (i.steps types) k) (serializeCustom i.customMap)).item
  else runSteps (i.steps types) k

theorem unserializeAttr_base (k : Item) :
    unserializeAttr env types k (i.baseSerializeAttr types) =
      unserializeAttr env types (runSteps (i.steps types) k) i.customField := by
  have hbytes : i.baseSerializeAttr types =
      (i.leadingFields types ++ (i.dateField ++ i.trailingFields)) ++ i.customField := by
    simp only [baseSerializeAttr, List.append_assoc]
  rw [hbytes, reads_steps]

theorem item_unserializeAttr_base (hsize : i.customMap.length < 256 ^ 8) (k : Item) :
    (unserializeAttr env types k (i.baseSerializeAttr types)).item = i.readItem types k := by
  rw [unserializeAttr_base, readItem, customField]
  cases hc : i.hasAttribute .custom with
  | false => rfl
  | true =>
    have hread : ∀ k, readAttr env types k .customAttributes
        (write 8 i.customMap.length ++ serializeCustom i.customMap) =
          readCustom i.customMap.length k (serializeCustom i.customMap) :=
      fun k => readAttr_custom k hsize _
    rw [field, if_pos rfl, if_pos rfl, unserializeAttr_cons]
    rw [show i.getAttributes.getCustomAttributeMap = i.customMap from rfl, hread]
    by_cases hb : ∃ e ∈ i.customMap, e.2 = .blank
    · obtain ⟨j, s, hj⟩ := readCustom_blank hb (runSteps (i.steps types) k) []
      rw [List.append_nil] at hj
      rw [hj]
      rfl
    · have hb' : ∀ e ∈ i.customMap, e.2 ≠ .blank := fun e he h => hb ⟨e, he, h⟩
      obtain ⟨j, hj⟩ := readCustom_serializeCustom hb' (runSteps (i.steps types) k) []
      rw [List.append_nil] at hj
      rw [hj]
      rfl

/-! ## The round trip -/

inductive StoredValue
  | number (n : ℤ)
  | text (s : Str)
  | custom (m : Str → Option CustomAttribute)

/-- What an item holds under a code of the stream. -/
def storedValue (types : Items) (i : Item) : AttrTypes → StoredValue
  | .count => .number (i.getSubType types).toNat
  | .charges => .number i.getCharges.toNat
  | .actionId => .number i.getActionId.toNat
  | .text => .text (i.getStrAttr .text)
  | .writtenDate => .number (i.getIntAttr .date).toInt
  | .writtenBy => .text (i.getStrAttr .writer)
  | .desc => .text (i.getStrAttr .description)
  | .duration => .number (i.getIntAttr .duration).toInt
  | .decayingState => .number i.getDecaying.toNat
  | .name => .text (i.getStrAttr .name)
  | .article => .text (i.getStrAttr .article)
  | .pluralName => .text (i.getStrAttr .pluralName)
  | .weight => .number (i.getIntAttr .weight).toInt
  | .attack => .number (i.getIntAttr .attack).toInt
  | .defense => .number (i.getIntAttr .defense).toInt
  | .extraDefense => .number (i.getIntAttr .extraDefense).toInt
  | .imbuingSlots => .number (i.getIntAttr .imbuingSlots).toInt
  | .openContainer => .number (i.getIntAttr .openContainer).toInt
  | .armor => .number (i.getIntAttr .armor).toInt
  | .hitChance => .number (i.getIntAttr .hitChance).toInt
  | .shootRange => .number (i.getIntAttr .shootRange).toInt
  | .special => .text (i.getStrAttr .special)
  | .customAttributes => .custom i.getAttributes.getCustomAttribute
  | _ => .number 0

/-- The codes that `Item::serializeAttr` writes for an item. -/
def writes (types : Items) (i : Item) : AttrTypes → Bool
  | .count =>
    let it := i.getType types
    it.stackable || it.isFluidContainer || it.isSplash
  | .charges => i.getCharges != 0
  | .actionId => (i.getType types).moveable && i.getActionId != 0
  | .text => !(i.getStrAttr .text).isEmpty
  | .writtenDate => i.getIntAttr .date != 0
  | .writtenBy => !(i.getStrAttr .writer).isEmpty
  | .desc => !(i.getStrAttr .description).isEmpty
  | .duration => i.hasAttribute .duration
  | .decayingState =>
    i.getDecaying == ItemDecayState.decayingTrue.toUInt8 ||
      i.getDecaying == ItemDecayState.decayingPending.toUInt8
  | .name => i.hasAttribute .name
  | .article => i.hasAttribute .article
  | .pluralName => i.hasAttribute .pluralName
  | .weight => i.hasAttribute .weight
  | .attack => i.hasAttribute .attack
  | .defense => i.hasAttribute .defense
  | .extraDefense => i.hasAttribute .extraDefense
  | .imbuingSlots => i.hasAttribute .imbuingSlots
  | .openContainer => i.hasAttribute .openContainer
  | .armor => i.hasAttribute .armor
  | .hitChance => i.hasAttribute .hitChance
  | .shootRange => i.hasAttribute .shootRange
  | .special => i.hasAttribute .special
  | .customAttributes => i.hasAttribute .custom
  | _ => false

/-- What should be read back: the value held, and for a decaying item that it waits to decay. -/
def expectedValue (types : Items) (i : Item) : AttrTypes → StoredValue
  | .decayingState => .number ItemDecayState.decayingPending.toUInt8.toNat
  | a => i.storedValue types a

/-- Whether `setSubType` stores charges. -/
def keepsCharges (it : ItemType) : Bool :=
  !it.isFluidContainer && !it.isSplash && !it.stackable && it.charges != 0

/-- Whether the encoding of a code can hold the value of an item, and the type of the reading
item, chosen by `CreateItem`, stores it in the same place. -/
def Fits (types : Items) (i k : Item) : AttrTypes → Prop
  | .count =>
    k.getType types = i.getType types ∧ i.getCharges = 0 ∧ (i.getSubType types).toNat < 256
  | .charges => k.getType types = i.getType types ∧ keepsCharges (i.getType types) = true
  | .actionId => 100 ≤ i.getActionId
  | .text => (i.getStrAttr .text).length ≤ 0xFFFF
  | .writtenBy => (i.getStrAttr .writer).length ≤ 0xFFFF
  | .desc => (i.getStrAttr .description).length ≤ 0xFFFF
  | .duration => 0 ≤ i.getIntAttr .duration
  | .name => (i.getStrAttr .name).length ≤ 0xFFFF
  | .article => (i.getStrAttr .article).length ≤ 0xFFFF
  | .pluralName => (i.getStrAttr .pluralName).length ≤ 0xFFFF
  | .hitChance => -128 ≤ (i.getIntAttr .hitChance).toInt ∧ (i.getIntAttr .hitChance).toInt < 128
  | .shootRange => 0 ≤ (i.getIntAttr .shootRange).toInt ∧ (i.getIntAttr .shootRange).toInt < 256
  | .special => (i.getStrAttr .special).length ≤ 0xFFFF
  | .customAttributes => ∀ e ∈ i.customMap, e.1.length ≤ 0xFFFF ∧ customFits e.2 = true
  | _ => True

section RoundTrip

variable {k : Item} {n : UInt16}

theorem stored_readItem {u : ItemAttrType} (hu : .custom ≠ u) :
    (i.readItem types k).stored u = (runSteps (i.steps types) k).stored u := by
  unfold readItem
  split
  · exact stored_readCustom hu _ _ _
  · rfl

theorem count_readItem : (i.readItem types k).count = (i.readSubType types k).count := by
  unfold readItem
  split
  · rw [count_readCustom, count_runSteps]
  · exact count_runSteps

theorem getType_readItem (hsize : i.customMap.length < 256 ^ 8) :
    (i.readItem types k).getType types = k.getType types := by
  have hid := (sameObject_unserializeAttr ⟨fun _ => [], fun _ => true⟩ types k
    (i.baseSerializeAttr types)).id
  rw [item_unserializeAttr_base hsize] at hid
  rw [getType, getType, hid]

/-- A fluid or a count is read back. -/
theorem getSubType_readItem (hsize : i.customMap.length < 256 ^ 8)
    (hw : i.writes types .count = true) (hf : i.Fits types k .count) :
    (i.readItem types k).getSubType types = i.getSubType types := by
  obtain ⟨htype, hcharges, hlt⟩ := hf
  have hn : UInt16.ofNat ((i.getSubType types).toNat % 256) = i.getSubType types := by
    rw [Nat.mod_eq_of_lt hlt, UInt16.ofNat_toNat]
  have hread : i.readSubType types k = k.setSubType types (i.getSubType types) := by
    rw [writes] at hw
    rw [readSubType, hcharges, hw, hn]
    rfl
  have htype' : (i.readItem types k).getType types = i.getType types :=
    (getType_readItem hsize).trans htype
  by_cases hfluid : ((i.getType types).isFluidContainer || (i.getType types).isSplash) = true
  · have hset : k.setSubType types (i.getSubType types) = k.setFluidType (i.getSubType types) := by
      rw [setSubType, htype, if_pos hfluid]
    have hstored : (i.readItem types k).stored .fluidType = some ⟨.fluidType,
        .integer (i.getSubType types).toUInt32.toInt32.toInt64⟩ := by
      rw [stored_readItem (by decide), stored_runSteps_subType (by simp), hread, hset]
      exact stored_setIntAttr_self rfl _
    rw [getSubType, htype', if_pos hfluid, getFluidType_of_stored hstored]
  · have hstack : (i.getType types).stackable = true := by
      simp only [Bool.or_eq_true, not_or] at hfluid
      simpa [writes, hfluid.1, hfluid.2] using hw
    have hcount : i.getSubType types = i.count.toUInt16 := by
      rw [getSubType, if_neg hfluid, if_pos hstack]
    have hset : k.setSubType types (i.getSubType types) = k.setItemCount (i.getSubType types).toNat := by
      rw [setSubType, htype, if_neg hfluid, if_pos hstack]
    rw [getSubType, htype', if_neg hfluid, if_pos hstack, count_readItem, hread, hset, hcount]
    simp [setItemCount]

/-- Charges are read back where `setSubType` stores charges. -/
theorem getCharges_readItem (hw : i.writes types .charges = true) (hf : i.Fits types k .charges) :
    (i.readItem types k).getCharges = i.getCharges := by
  obtain ⟨htype, hkeeps⟩ := hf
  simp only [keepsCharges, Bool.and_eq_true, Bool.not_eq_true', bne_iff_ne] at hkeeps
  obtain ⟨⟨⟨hfluid, hsplash⟩, hstack⟩, hcharges⟩ := hkeeps
  have hread : i.readSubType types k = k.setCharges i.getCharges := by
    rw [writes] at hw
    simp only [readSubType, onField, hw, hfluid, hsplash, hstack, Bool.or_self, if_true,
      Bool.false_eq_true, if_false]
    simp [setSubType, htype, hfluid, hsplash, hstack, hcharges]
  refine getCharges_of_stored ?_
  rw [stored_readItem (by decide), stored_runSteps_subType (by simp), hread]
  exact stored_setIntAttr_self rfl _

/-- Reading leaves the count alone unless the item is a stack. -/
theorem count_readItem_of_not_stack (htype : k.getType types = i.getType types)
    (hcharges : i.getCharges = 0 ∨ keepsCharges (i.getType types) = true)
    (hstack : ((i.getType types).stackable && !(i.getType types).isFluidContainer &&
      !(i.getType types).isSplash) = false) :
    (i.readItem types k).count = k.count := by
  have hfluid : ∀ {c : Bool} {j : Item} {n : UInt16}, j.getType types = i.getType types →
      ((i.getType types).isFluidContainer || (i.getType types).isSplash) = true →
        (onField c (fun k => k.setSubType types n) j).count = j.count := by
    intro c j n hj hf
    refine count_onField ?_
    rw [setSubType, hj, if_pos hf]
    rfl
  rw [count_readItem, readSubType]
  by_cases hf : ((i.getType types).isFluidContainer || (i.getType types).isSplash) = true
  · have hj : ∀ c n, (onField c (fun k => k.setSubType types n) k).getType types =
        i.getType types := by
      intro c n
      rw [← htype, getType, getType]
      cases c
      · rfl
      · exact congrArg types.getItemType (sameObject_setSubType types k n).id
    rw [hfluid (hj _ _) hf, hfluid htype hf]
  · have hst : ((i.getType types).stackable || (i.getType types).isFluidContainer ||
        (i.getType types).isSplash) = false := by
      simp only [Bool.or_eq_true, not_or, Bool.not_eq_true] at hf
      simpa [hf.1, hf.2] using hstack
    rw [hst]
    rcases hcharges with h0 | hkeeps
    · rw [h0]
      rfl
    · refine count_onField ?_
      simp only [keepsCharges, Bool.and_eq_true, Bool.not_eq_true', bne_iff_ne] at hkeeps
      obtain ⟨⟨⟨hnf, hns⟩, hnst⟩, hc⟩ := hkeeps
      simp [onField, setSubType, htype, hnf, hns, hnst, hc]
      rfl

/-- A number that is written has the value that its encoding holds. -/
theorem getIntAttr_readItem {t : ItemAttrType} {c : Bool} {v : Int32}
    (ht : t.isIntAttrType = true) (h : (t, c, v) ∈ i.readNumbers types) (hc : c = true) :
    (i.readItem types k).getIntAttr t = v := by
  have hne : .custom ≠ t := by rintro rfl; cases ht
  have hst : (i.readItem types k).stored t = some ⟨t, .integer v.toInt64⟩ := by
    rw [stored_readItem hne, stored_runSteps_number h, if_pos hc]
  rw [getIntAttr_of_stored ht hst, Int32.toInt32_toInt64]

/-- A text that is written and not too long is read back by a new item. -/
theorem getStrAttr_readItem {t : ItemAttrType} {c : Bool} (hk : k.stored t = none)
    (ht : t.isStrAttrType = true) (h : (t, c) ∈ i.readTexts) (hc : c = true)
    (hlen : (i.getStrAttr t).length ≤ 0xFFFF) :
    (i.readItem types k).getStrAttr t = i.getStrAttr t := by
  have hne : .custom ≠ t := by rintro rfl; cases ht
  have hst : (i.readItem types k).stored t = _ :=
    (stored_readItem hne).trans (stored_runSteps_text h)
  rw [fitString_eq hlen, hc] at hst
  by_cases hv : i.getStrAttr t = []
  · rw [if_neg (by simp [hv]), hk] at hst
    rw [hv, getStrAttr_eq, ItemAttributes.getStrAttr, ht]
    unfold stored at hst
    rw [hst]
    rfl
  · rw [if_pos (by simp [hv])] at hst
    exact getStrAttr_of_stored ht hst

theorem getIntAttr_of_not_int {t : ItemAttrType} (ht : t.isIntAttrType = false) (i : Item) :
    i.getIntAttr t = 0 := by
  rw [getIntAttr_eq, ItemAttributes.getIntAttr, ht]
  rfl

/-- A map that fits is read back by an item without custom attributes. -/
theorem customMap_readItem (hi : i.Reached types) (hk : k.stored .custom = none)
    (hw : i.writes types .customAttributes = true) (hf : i.Fits types k .customAttributes) :
    (i.readItem types k).customMap = i.customMap := by
  have hk' : (runSteps (i.steps types) k).customMap = [] := by
    refine customMap_of_stored (Eq.trans ?_ hk)
    simp (disch := decide) only [runSteps, steps, leadingSteps, dateSteps, trailingSteps, strStep,
      intStep, setDuration, setDecaying, setActionId, List.foldl_append, List.foldl_cons,
      List.foldl_nil, stored_onField_int_of_ne, stored_onField_str_of_ne, stored_onField_subType]
  have hread := readCustom_of_fits hf (runSteps (i.steps types) k) []
  rw [List.append_nil] at hread
  rw [writes] at hw
  rw [readItem, if_pos hw, hread, AttrRead.item, customMap_setCustoms, hk', List.nil_append]
  rw [hk', List.nil_append]
  exact hi.lowerKeys

/-- The value of a code that holds a number. -/
theorem number_readItem {t : ItemAttrType} {c : Bool} {v : Int32} (ht : t.isIntAttrType = true)
    (h : (t, c, v) ∈ i.readNumbers types) (hc : c = true) (hv : v = i.getIntAttr t) :
    StoredValue.number ((i.readItem types k).getIntAttr t).toInt = .number (i.getIntAttr t).toInt := by
  rw [getIntAttr_readItem ht h hc, hv]

/-- Every written value that fits is read back by a new item. -/
theorem storedValue_readItem (hi : i.Reached types) (hsize : i.customMap.length < 256 ^ 8)
    (hk : createItem types i.id n = some k) {a : AttrTypes} (hw : i.writes types a = true)
    (hf : i.Fits types k a) :
    (i.readItem types k).storedValue types a = i.expectedValue types a := by
  have hnew : ∀ {t}, t ∉ [.fluidType, .charges, .duration] → k.stored t = none :=
    fun ht => stored_of_createItem hk ht
  cases a
  case count =>
    exact congrArg (fun n : UInt16 => StoredValue.number n.toNat) (getSubType_readItem hsize hw hf)
  case charges =>
    exact congrArg (fun n : UInt16 => StoredValue.number n.toNat) (getCharges_readItem hw hf)
  case actionId =>
    have hmem : (ItemAttrType.actionId, i.writes types .actionId,
        if i.getActionId < 100 then 100 else i.getActionId.toUInt32.toInt32) ∈
          i.readNumbers types := by simp [readNumbers, writes]
    have hid : (i.readItem types k).getActionId = i.getActionId := by
      rw [getActionId, getIntAttr_readItem rfl hmem hw, if_neg (UInt16.not_lt.mpr hf)]
      simp
    exact congrArg (fun n : UInt16 => StoredValue.number n.toNat) hid
  case decayingState =>
    have hmem : (ItemAttrType.decayState, i.writes types .decayingState,
        ItemDecayState.decayingPending.toInt32) ∈ i.readNumbers types := by
      simp [readNumbers, writes]
    have hstate : (i.readItem types k).getDecaying = ItemDecayState.decayingPending.toUInt8 := by
      rw [getDecaying, getIntAttr_readItem rfl hmem hw]
      rfl
    exact congrArg (fun n : UInt8 => StoredValue.number n.toNat) hstate
  case duration =>
    have hmem : (ItemAttrType.duration, i.writes types .duration,
        max 0 (i.getIntAttr .duration)) ∈ i.readNumbers types := by simp [readNumbers, writes]
    exact number_readItem rfl hmem hw (if_pos hf)
  case hitChance =>
    have hmem : (ItemAttrType.hitChance, i.writes types .hitChance,
        (UInt8.ofNat ((i.getIntAttr .hitChance).toUInt32.toNat % 256)).toInt8.toInt32) ∈
          i.readNumbers types := by simp [readNumbers, writes]
    exact number_readItem rfl hmem hw (toInt32_toInt8_of_le hf)
  case shootRange =>
    have hmem : (ItemAttrType.shootRange, i.writes types .shootRange,
        (UInt8.ofNat ((i.getIntAttr .shootRange).toUInt32.toNat % 256)).toUInt32.toInt32) ∈
          i.readNumbers types := by simp [readNumbers, writes]
    exact number_readItem rfl hmem hw (toInt32_toUInt32_of_le hf)
  case customAttributes =>
    have hmap := customMap_readItem hi (hnew (by decide)) hw hf
    refine congrArg StoredValue.custom ?_
    funext key
    exact congrArg (List.lookup (asLowerCaseString key)) hmap
  case imbuingSlots =>
    -- the mask of integer attributes lacks the bit of this one, so it is never set
    simp only [storedValue, expectedValue, getIntAttr_of_not_int (t := .imbuingSlots) rfl]
  case text | writtenBy | desc | name | article | pluralName | special =>
    exact congrArg _ (getStrAttr_readItem (hnew (by decide)) rfl (by simp [readTexts, writes]) hw hf)
  case writtenDate | weight | attack | defense | extraDefense | openContainer | armor =>
    exact number_readItem rfl (by simp [readNumbers, writes]) hw rfl
  all_goals cases hw

/-- Without blank values the stream is read to its end. -/
theorem unserializeAttr_base_of_not_blank (hsize : i.customMap.length < 256 ^ 8)
    (hb : ∀ e ∈ i.customMap, e.2 ≠ .blank) (k : Item) :
    (unserializeAttr env types k (i.baseSerializeAttr types)).ok = true ∧
      (unserializeAttr env types k (i.baseSerializeAttr types)).stream = [] := by
  rw [unserializeAttr_base]
  have hw : ∀ e ∈ i.writtenCustom, e.2 ≠ .blank := by
    intro e he
    unfold writtenCustom at he
    split at he
    · exact hb e he
    · exact absurd he List.not_mem_nil
  have htrans : Transparent env types blind (runSteps (i.steps types) k).cls i.customField :=
    transparent_customField (blind_blind _) hsize hw
  obtain ⟨j, -, -, hj⟩ := htrans (runSteps (i.steps types) k) rfl []
  rw [List.append_nil] at hj
  rw [hj]
  exact ⟨rfl, rfl⟩

/-- **The round trip of attributes.** A new item that reads what an item wrote gets every written
value that fits, and keeps its count unless the item is a stack. -/
theorem roundTrip (env : AttrEnv) (types : Items) (i k : Item) (n : UInt16) (hi : i.Reached types)
    (hsize : i.customMap.length < 2 ^ 64) (hk : createItem types i.id n = some k) :
    (∀ a, i.writes types a = true → i.Fits types k a →
      (unserializeAttr env types k (i.baseSerializeAttr types)).item.storedValue types a =
        i.expectedValue types a) ∧
    (k.getType types = i.getType types →
      (i.getCharges = 0 ∨ keepsCharges (i.getType types) = true) →
      ((i.getType types).stackable && !(i.getType types).isFluidContainer &&
        !(i.getType types).isSplash) = false →
      (unserializeAttr env types k (i.baseSerializeAttr types)).item.count = k.count) ∧
    ((∀ e ∈ i.customMap, e.2 ≠ .blank) →
      (unserializeAttr env types k (i.baseSerializeAttr types)).ok = true) := by
  rw [item_unserializeAttr_base hsize]
  refine ⟨fun a hw hf => storedValue_readItem hi hsize hk hw hf, ?_, fun hb => ?_⟩
  · exact fun htype hcharges hstack => count_readItem_of_not_stack htype hcharges hstack
  · exact (unserializeAttr_base_of_not_blank hsize hb k).1

/-- A table in which every type can be moved and carries charges. -/
def swordTypes : Items where
  items id := { id := id, moveable := true, charges := 20 }
  reverseItemMap _ := none

def swordEnv : AttrEnv where
  getNameByGuid _ := []
  addUniqueItem _ := true

/-- A sword after the calls of some setters. -/
def sword (setters : List Setter) : Item :=
  setters.foldl (Setter.apply swordTypes) (construct swordTypes .item 2376 0)

theorem reached_sword (setters : List Setter) : (sword setters).Reached swordTypes :=
  ⟨2376, 0, construct swordTypes .item 2376 0, rfl, setters, rfl⟩

theorem roundTrip_sword :
    (∀ a, (sword [.int .attack 7, .int .actionId 100]).writes swordTypes a = true →
      (sword [.int .attack 7, .int .actionId 100]).Fits swordTypes (sword []) a →
      (unserializeAttr swordEnv swordTypes (sword []) ((sword [.int .attack 7,
        .int .actionId 100]).baseSerializeAttr swordTypes)).item.storedValue swordTypes a =
          (sword [.int .attack 7, .int .actionId 100]).expectedValue swordTypes a) ∧
    ((sword []).getType swordTypes =
        (sword [.int .attack 7, .int .actionId 100]).getType swordTypes →
      ((sword [.int .attack 7, .int .actionId 100]).getCharges = 0 ∨
        keepsCharges ((sword [.int .attack 7, .int .actionId 100]).getType swordTypes) = true) →
      (((sword [.int .attack 7, .int .actionId 100]).getType swordTypes).stackable &&
        !((sword [.int .attack 7, .int .actionId 100]).getType swordTypes).isFluidContainer &&
        !((sword [.int .attack 7, .int .actionId 100]).getType swordTypes).isSplash) = false →
      (unserializeAttr swordEnv swordTypes (sword []) ((sword [.int .attack 7,
        .int .actionId 100]).baseSerializeAttr swordTypes)).item.count = (sword []).count) ∧
    ((∀ e ∈ (sword [.int .attack 7, .int .actionId 100]).customMap, e.2 ≠ .blank) →
      (unserializeAttr swordEnv swordTypes (sword []) ((sword [.int .attack 7,
        .int .actionId 100]).baseSerializeAttr swordTypes)).ok = true) :=
  roundTrip swordEnv swordTypes (sword [.int .attack 7, .int .actionId 100]) (sword []) 0
    (reached_sword _) (by decide) rfl

/-- A duration below zero is read as zero. -/
theorem not_roundTrip :
    ¬ ∀ (env : AttrEnv) (types : Items) (i k : Item) (n : UInt16), i.Reached types →
      i.customMap.length < 2 ^ 64 → createItem types i.id n = some k →
        ∀ a, i.writes types a = true →
          (unserializeAttr env types k (i.baseSerializeAttr types)).item.storedValue types a =
            i.expectedValue types a := by
  intro h
  have hdur := h swordEnv swordTypes (sword [.int .duration (-5)]) (sword []) 0 (reached_sword _)
    (by decide) (by decide +kernel) .duration (by decide +kernel)
  have hread : ((unserializeAttr swordEnv swordTypes (sword [])
      ((sword [.int .duration (-5)]).baseSerializeAttr swordTypes)).item.getIntAttr .duration).toInt =
        ((sword [.int .duration (-5)]).getIntAttr .duration).toInt := StoredValue.number.inj hdur
  exact absurd hread (by decide +kernel)

end RoundTrip

end Item

end OTServBR
