import OTServBR.Persistence.ItemAttr

/-! # Framing of the attribute stream

Reading an attribute never changes the class or the id of the item and never
lengthens the stream. A piece of the stream is transparent for a class when the
loop of `unserializeAttr` runs over it and goes on with what follows;
everything that `serializeAttr` writes is transparent for the class that wrote
it, unless a custom value is blank.
-/

namespace OTServBR

open PropWriteStream PropStream

/-- The parts of an item that reading its attributes leaves alone. -/
structure SameObject (i j : Item) : Prop where
  cls : j.cls = i.cls
  id : j.id = i.id

namespace SameObject

theorem refl (i : Item) : SameObject i i := ⟨rfl, rfl⟩

theorem trans {i j k : Item} (h : SameObject i j) (h' : SameObject j k) : SameObject i k :=
  ⟨h'.cls.trans h.cls, h'.id.trans h.id⟩

end SameObject

namespace Item

section Setters

variable (env : AttrEnv) (types : Items) (i : Item)

theorem sameObject_setSubType (n : UInt16) : SameObject i (i.setSubType types n) := by
  unfold setSubType
  dsimp only
  split_ifs <;> exact ⟨rfl, rfl⟩

theorem sameObject_setUniqueId (n : UInt16) : SameObject i (i.setUniqueId env n) := by
  unfold setUniqueId
  split_ifs <;> exact ⟨rfl, rfl⟩

theorem sameObject_setSleeper (guid : UInt32) : SameObject i (i.setSleeper env guid) := by
  unfold setSleeper
  dsimp only
  split_ifs <;> exact ⟨rfl, rfl⟩

end Setters

end Item

/-- A read that starts from an item and a stream keeps the object and consumes the stream. -/
def AttrRead.Keeps (i : Item) (s : Str) : AttrRead → Prop
  | .continue j s' | .finish j _ s' => SameObject i j ∧ s'.length ≤ s.length
  | .error j _ => SameObject i j

namespace Item

variable (env : AttrEnv) (types : Items)

theorem keeps_readNum {size : ℕ} {i : Item} {s : Str} {set : ℕ → Item}
    (h : ∀ v, SameObject i (set v)) : (readNum size i s set).Keeps i s := by
  unfold readNum
  split
  · exact .refl i
  · next hr => exact ⟨h _, by have := length_of_read hr; omega⟩

theorem keeps_readStr {i : Item} {s : Str} {set : Str → Item}
    (h : ∀ v, SameObject i (set v)) : (readStr i s set).Keeps i s := by
  unfold readStr
  split
  · exact .refl i
  · next hr => exact ⟨h _, length_le_of_readString hr⟩

theorem keeps_skipBytes {n : ℕ} {i : Item} {s : Str} : (skipBytes n i s).Keeps i s := by
  unfold skipBytes
  split
  · exact .refl i
  · next hr => exact ⟨.refl i, length_le_of_skip hr⟩

theorem length_le_of_unserialize {s rest : Str} {v : CustomAttribute}
    (h : CustomAttribute.unserialize s = .ok (v, rest)) : rest.length ≤ s.length := by
  have hnum : ∀ {size f} {s' : Str}, CustomAttribute.readNum size f s' = .ok (v, rest) →
      rest.length ≤ s'.length := by
    intro size f s' hn
    unfold CustomAttribute.readNum at hn
    split at hn
    · cases hn
    · next hr =>
      cases hn
      have := length_of_read hr
      omega
  unfold CustomAttribute.unserialize at h
  split at h
  · cases h
  · next hr =>
    have hl := length_of_read hr
    split at h
    · split at h
      · cases h
      · next hs =>
        cases h
        have := length_le_of_readString hs
        omega
    · have := hnum h; omega
    · have := hnum h; omega
    · have := hnum h; omega
    · cases h

theorem keeps_readCustom (n : ℕ) (i : Item) (s : Str) : (readCustom n i s).Keeps i s := by
  induction n generalizing i s with
  | zero => exact ⟨.refl i, le_rfl⟩
  | succ n ih =>
    unfold readCustom
    split
    · exact .refl i
    · next key s₁ hk =>
      split
      · exact .refl i
      · next v s₂ hv =>
        have hlen : s₂.length ≤ s.length :=
          (length_le_of_unserialize hv).trans (length_le_of_readString hk)
        have h := ih (i.setCustomAttribute key v) s₂
        revert h
        cases readCustom n (i.setCustomAttribute key v) s₂ with
        | «continue» j s' => exact fun h => ⟨⟨h.1.cls, h.1.id⟩, h.2.trans hlen⟩
        | error j s' => exact fun h => ⟨h.cls, h.id⟩
        | finish j m s' => exact fun h => ⟨⟨h.1.cls, h.1.id⟩, h.2.trans hlen⟩

theorem keeps_baseReadAttr (i : Item) (attr : AttrTypes) (s : Str) :
    (baseReadAttr env types i attr s).Keeps i s := by
  have hset : ∀ t v, SameObject i (i.setIntAttr t v) := fun _ _ => ⟨rfl, rfl⟩
  have hstr : ∀ t v, SameObject i (i.setStrAttr t v) := fun _ _ => ⟨rfl, rfl⟩
  cases attr <;> unfold baseReadAttr <;> dsimp only
  case count | runeCharges | charges =>
    exact keeps_readNum fun _ => sameObject_setSubType types i _
  case uniqueId => exact keeps_readNum fun _ => sameObject_setUniqueId env i _
  case decayingState =>
    refine keeps_readNum fun v => ?_
    split_ifs
    · exact hset _ _
    · exact .refl i
  case text | writtenBy | desc | name | article | pluralName | special =>
    exact keeps_readStr (hstr _)
  case depotId | houseDoorId | sleeperGuid | sleepStart | teleDest => exact keeps_skipBytes
  case containerItems | tileFlags | item => exact .refl i
  case customAttributes =>
    split
    · exact .refl i
    · next n s₁ hr =>
      have hl := length_of_read hr
      have h := keeps_readCustom n i s₁
      revert h
      cases readCustom n i s₁ with
      | «continue» j s' => exact fun h => ⟨h.1, by have := h.2; omega⟩
      | error j s' => exact fun h => h
      | finish j m s' => exact fun h => ⟨h.1, by have := h.2; omega⟩
  all_goals exact keeps_readNum fun _ => hset _ _

theorem keeps_readTeleDest (i : Item) (s : Str) : (readTeleDest i s).Keeps i s := by
  unfold readTeleDest
  split
  · exact .refl i
  · next x s₁ hx =>
    split
    · exact ⟨rfl, rfl⟩
    · next y s₂ hy =>
      have h₁ := length_of_read hx
      have h₂ := length_of_read hy
      dsimp only
      unfold readNum
      split
      · exact ⟨rfl, rfl⟩
      · next z s₃ hz => exact ⟨⟨rfl, rfl⟩, by have := length_of_read hz; omega⟩

/-- Reading one attribute keeps the object and never lengthens the stream. -/
theorem keeps_readAttr (i : Item) (attr : AttrTypes) (s : Str) :
    (readAttr env types i attr s).Keeps i s := by
  have hcont : (readContainerItems i s).Keeps i s := by
    unfold readContainerItems
    split
    · exact .refl i
    · next hr => exact ⟨.refl i, by have := length_of_read hr; omega⟩
  unfold readAttr
  split
  any_goals exact hcont
  · exact keeps_readNum fun _ => ⟨rfl, rfl⟩
  · exact keeps_readTeleDest i s
  · exact keeps_readNum fun _ => ⟨rfl, rfl⟩
  · exact keeps_readNum fun _ => sameObject_setSleeper env i _
  · exact keeps_readNum fun _ => ⟨rfl, rfl⟩
  · exact keeps_baseReadAttr env types i _ s

/-- The loop does not depend on its fuel once that exceeds the length of the stream. -/
theorem unserializeAttrLoop_fuel {f g : ℕ} (i : Item) (s : Str) (hf : s.length < f)
    (hg : s.length < g) : unserializeAttrLoop env types f i s = unserializeAttrLoop env types g i s := by
  induction f generalizing g i s with
  | zero => omega
  | succ f ih =>
    cases g with
    | zero => omega
    | succ g =>
      unfold unserializeAttrLoop
      cases hr : read 1 s with
      | error s' => rfl
      | ok p =>
        obtain ⟨b, s₁⟩ := p
        have hl := length_of_read hr
        by_cases hb : (b == 0) = true
        · simp only [hb, if_true]
        · simp only [hb]
          cases AttrTypes.ofUInt8 (UInt8.ofNat b) with
          | none => rfl
          | some attr =>
            have hk := keeps_readAttr env types i attr s₁
            revert hk
            dsimp only
            cases hread : readAttr env types i attr s₁ with
            | «continue» j s₂ =>
              intro hk
              have hl₂ := hk.2
              exact ih j s₂ (by omega) (by omega)
            | error j s₂ => exact fun _ => rfl
            | finish j n s₂ => exact fun _ => rfl

/-- One turn of the loop, without fuel. -/
theorem unserializeAttr_cons (i : Item) (attr : AttrTypes) (s : Str) :
    unserializeAttr env types i (attr.toUInt8 :: s) =
      match readAttr env types i attr s with
      | .continue j s' => unserializeAttr env types j s'
      | .error j s' => ⟨false, j, 0, s'⟩
      | .finish j n s' => ⟨true, j, n, s'⟩ := by
  have hb : (attr.toUInt8.toNat == 0) = false := by
    have := AttrTypes.toUInt8_ne_zero attr
    simpa [← UInt8.toNat_inj] using this
  have hk := keeps_readAttr env types i attr s
  revert hk
  unfold unserializeAttr
  rw [unserializeAttrLoop, read_cons]
  simp only [hb, UInt8.ofNat_toNat, AttrTypes.ofUInt8_toUInt8]
  cases hread : readAttr env types i attr s with
  | «continue» j s' =>
    intro hk
    exact unserializeAttrLoop_fuel env types j s' (by have := hk.2; simp; omega) (by omega)
  | error j s' => exact fun _ => rfl
  | finish j n s' => exact fun _ => rfl

theorem sameObject_unserializeAttrLoop (f : ℕ) (i : Item) (s : Str) :
    SameObject i (unserializeAttrLoop env types f i s).item := by
  induction f generalizing i s with
  | zero => exact .refl i
  | succ f ih =>
    unfold unserializeAttrLoop
    cases read 1 s with
    | error s' => exact .refl i
    | ok p =>
      obtain ⟨b, s₁⟩ := p
      by_cases hb : (b == 0) = true
      · simp only [hb, if_true]
        exact .refl i
      · simp only [hb, Bool.false_eq_true, if_false]
        cases AttrTypes.ofUInt8 (UInt8.ofNat b) with
        | none => exact .refl i
        | some attr =>
          have hk := keeps_readAttr env types i attr s₁
          revert hk
          dsimp only
          cases readAttr env types i attr s₁ with
          | «continue» j s₂ => exact fun hk => hk.1.trans (ih j s₂)
          | error j s₂ => exact fun hk => hk
          | finish j n s₂ => exact fun hk => hk.1

/-- Reading attributes, even if it fails, keeps the class and the id. -/
theorem sameObject_unserializeAttr (i : Item) (s : Str) :
    SameObject i (unserializeAttr env types i s).item :=
  sameObject_unserializeAttrLoop env types _ i s

/-- The loop fails without a count, or it does not lengthen the stream. -/
theorem length_unserializeAttrLoop (f : ℕ) (i : Item) (s : Str) :
    ((unserializeAttrLoop env types f i s).ok = false ∧
        (unserializeAttrLoop env types f i s).serializationCount = 0) ∨
      (unserializeAttrLoop env types f i s).stream.length ≤ s.length := by
  induction f generalizing i s with
  | zero => exact .inr le_rfl
  | succ f ih =>
    unfold unserializeAttrLoop
    cases hr : read 1 s with
    | error s' => exact .inr (length_of_read_error hr)
    | ok p =>
      obtain ⟨b, s₁⟩ := p
      have hl := length_of_read hr
      by_cases hb : (b == 0) = true
      · simp only [hb, if_true]
        exact .inr (by omega)
      · simp only [hb, Bool.false_eq_true, if_false]
        cases AttrTypes.ofUInt8 (UInt8.ofNat b) with
        | none => exact .inl ⟨rfl, rfl⟩
        | some attr =>
          have hk := keeps_readAttr env types i attr s₁
          revert hk
          dsimp only
          cases readAttr env types i attr s₁ with
          | «continue» j s₂ =>
            intro hk
            have hs₂ : s₂.length ≤ s.length := by have := hk.2; omega
            exact (ih j s₂).imp_right fun h => h.trans hs₂
          | error j s₂ => exact fun _ => .inl ⟨rfl, rfl⟩
          | finish j n s₂ =>
            intro hk
            have hs₂ : s₂.length ≤ s.length := by have := hk.2; omega
            exact .inr hs₂

/-- `unserializeAttr` fails without a count, or it does not lengthen the stream. -/
theorem length_unserializeAttr (i : Item) (s : Str) :
    ((unserializeAttr env types i s).ok = false ∧
        (unserializeAttr env types i s).serializationCount = 0) ∨
      (unserializeAttr env types i s).stream.length ≤ s.length :=
  length_unserializeAttrLoop env types _ i s

@[simp] theorem unserializeAttr_zero (i : Item) (s : Str) :
    unserializeAttr env types i (0 :: s) = ⟨true, i, 0, s⟩ := by
  rw [unserializeAttr, unserializeAttrLoop, read_cons]
  rfl

/-! ## Transparent pieces -/

/-- The loop runs over a piece and goes on with what follows it; the object stays the same, and
so does an observation of it. -/
def Transparent {β : Type} (obs : Item → β) (cls : ItemClass) (bs : Str) : Prop :=
  ∀ i : Item, i.cls = cls → ∀ rest, ∃ j, SameObject i j ∧ obs j = obs i ∧
    unserializeAttr env types i (bs ++ rest) = unserializeAttr env types j rest

/-- The loop fails inside a piece. -/
def Rejected (cls : ItemClass) (bs : Str) : Prop :=
  ∀ i : Item, i.cls = cls → ∀ rest, (unserializeAttr env types i (bs ++ rest)).ok = false

/-- Reading an attribute does not touch an observation of the item. -/
def Blind {β : Type} (obs : Item → β) (attr : AttrTypes) : Prop :=
  ∀ i s, obs (readAttr env types i attr s).item = obs i

variable {env types} {β : Type} {obs : Item → β} {cls : ItemClass} {bs bs' : Str}

theorem Transparent.nil : Transparent env types obs cls [] :=
  fun i _ _ => ⟨i, .refl i, rfl, rfl⟩

theorem Transparent.append (h : Transparent env types obs cls bs)
    (h' : Transparent env types obs cls bs') : Transparent env types obs cls (bs ++ bs') := by
  intro i hi rest
  obtain ⟨j, hj, oj, ej⟩ := h i hi (bs' ++ rest)
  obtain ⟨k, hk, ok, ek⟩ := h' j (hj.cls.trans hi) rest
  exact ⟨k, hj.trans hk, ok.trans oj, by rw [List.append_assoc, ej, ek]⟩

theorem Transparent.append_rejected (h : Transparent env types obs cls bs)
    (h' : Rejected env types cls bs') : Rejected env types cls (bs ++ bs') := by
  intro i hi rest
  obtain ⟨j, hj, -, ej⟩ := h i hi (bs' ++ rest)
  rw [List.append_assoc, ej]
  exact h' j (hj.cls.trans hi) rest

theorem Rejected.append (h : Rejected env types cls bs) (bs' : Str) :
    Rejected env types cls (bs ++ bs') := by
  intro i hi rest
  rw [List.append_assoc]
  exact h i hi (bs' ++ rest)

/-- A field is transparent if its reader consumes exactly the payload. -/
theorem transparent_field {c : Bool} {attr : AttrTypes} {payload : Str}
    (hobs : Blind env types obs attr)
    (h : c = true → ∀ i : Item, i.cls = cls → ∀ rest, ∃ j,
      readAttr env types i attr (payload ++ rest) = .continue j rest) :
    Transparent env types obs cls (field c attr payload) := by
  cases c with
  | false => exact .nil
  | true =>
    intro i hi rest
    obtain ⟨j, hj⟩ := h rfl i hi rest
    have hk := keeps_readAttr env types i attr (payload ++ rest)
    have ho := hobs i (payload ++ rest)
    rw [hj] at hk ho
    refine ⟨j, hk.1, ho, ?_⟩
    rw [field, if_pos rfl, List.cons_append, unserializeAttr_cons, hj]

theorem rejected_field {attr : AttrTypes} {payload : Str}
    (h : ∀ i : Item, i.cls = cls → ∀ rest, ∃ j s,
      readAttr env types i attr (payload ++ rest) = .error j s) :
    Rejected env types cls (field true attr payload) := by
  intro i hi rest
  obtain ⟨j, s, hj⟩ := h i hi rest
  rw [field, if_pos rfl, List.cons_append, unserializeAttr_cons, hj]

/-- No class overrides a code outside the six of the derived classes. -/
theorem readAttr_base {attr : AttrTypes}
    (ha : attr ∉ [.containerItems, .depotId, .teleDest, .houseDoorId, .sleeperGuid, .sleepStart])
    (i : Item) (s : Str) : readAttr env types i attr s = baseReadAttr env types i attr s := by
  unfold readAttr
  split <;> simp_all

@[simp] theorem readNum_write (size : ℕ) (i : Item) (v : ℕ) (rest : Str) (set : ℕ → Item) :
    readNum size i (write size v ++ rest) set = .continue (set (v % 256 ^ size)) rest := by
  simp [readNum]

@[simp] theorem readStr_writeString (i : Item) (t rest : Str) (set : Str → Item) :
    readStr i (writeString t ++ rest) set = .continue (set (fitString t)) rest := by
  simp [readStr]

section Fields

variable {c : Bool} {attr : AttrTypes} (hobs : Blind env types obs attr)

include hobs

/-- A field whose code is read as a number of the width written. -/
theorem transparent_num {size v : ℕ} (set : Item → ℕ → Item)
    (ha : attr ∉ [.containerItems, .depotId, .teleDest, .houseDoorId, .sleeperGuid, .sleepStart])
    (h : ∀ i s, baseReadAttr env types i attr s = readNum size i s (set i)) :
    Transparent env types obs cls (field c attr (write size v)) :=
  transparent_field hobs fun _ i _ rest => ⟨set i (v % 256 ^ size), by
    rw [readAttr_base ha, h, readNum_write]⟩

/-- A field whose code is read as a text. -/
theorem transparent_str {t : Str} (set : Item → Str → Item)
    (ha : attr ∉ [.containerItems, .depotId, .teleDest, .houseDoorId, .sleeperGuid, .sleepStart])
    (h : ∀ i s, baseReadAttr env types i attr s = readStr i s (set i)) :
    Transparent env types obs cls (field c attr (writeString t)) :=
  transparent_field hobs fun _ i _ rest => ⟨set i (fitString t), by
    rw [readAttr_base ha, h, readStr_writeString]⟩

theorem transparent_intField {i : Item} {t : ItemAttrType} {size : ℕ}
    (set : Item → ℕ → Item)
    (ha : attr ∉ [.containerItems, .depotId, .teleDest, .houseDoorId, .sleeperGuid, .sleepStart])
    (h : ∀ i s, baseReadAttr env types i attr s = readNum size i s (set i)) :
    Transparent env types obs cls (i.intField t attr size) :=
  transparent_num hobs set ha h

theorem transparent_textField {i : Item} {t : ItemAttrType}
    (ha : attr ∉ [.containerItems, .depotId, .teleDest, .houseDoorId, .sleeperGuid, .sleepStart])
    (h : ∀ i s, baseReadAttr env types i attr s = readStr i s (i.setStrAttr t)) :
    Transparent env types obs cls (i.textField t attr) :=
  transparent_str hobs (fun i => i.setStrAttr t) ha h

theorem transparent_strField {i : Item} {t : ItemAttrType}
    (ha : attr ∉ [.containerItems, .depotId, .teleDest, .houseDoorId, .sleeperGuid, .sleepStart])
    (h : ∀ i s, baseReadAttr env types i attr s = readStr i s (i.setStrAttr t)) :
    Transparent env types obs cls (i.strField t attr) :=
  transparent_str hobs (fun i => i.setStrAttr t) ha h

/-- A 32-bit attribute is read back by `readInt32`. -/
theorem transparent_int32Field {i : Item} {t : ItemAttrType}
    (ha : attr ∉ [.containerItems, .depotId, .teleDest, .houseDoorId, .sleeperGuid, .sleepStart])
    (h : ∀ i s, baseReadAttr env types i attr s = readInt32 i s t) :
    Transparent env types obs cls (i.intField t attr 4) :=
  transparent_intField hobs (fun i v => i.setIntAttr t (UInt32.ofNat v).toInt32) ha h

end Fields

theorem transparent_dateField (hobs : Blind env types obs .writtenDate) (i : Item) :
    Transparent env types obs cls i.dateField :=
  transparent_num hobs (fun i v => i.setIntAttr .date (UInt32.ofNat v).toInt32) (by decide)
    fun _ _ => rfl

section Standard

variable (hobs : ∀ attr, attr ≠ .writtenDate → Blind env types obs attr)

include hobs

theorem transparent_leadingFields (i : Item) :
    Transparent env types obs cls (i.leadingFields types) := by
  unfold leadingFields
  dsimp only
  refine .append (transparent_num (hobs _ (by decide))
    (fun i v => i.setSubType types (UInt16.ofNat v)) (by decide) fun _ _ => rfl) ?_
  refine .append (transparent_num (hobs _ (by decide))
    (fun i v => i.setSubType types (UInt16.ofNat v)) (by decide) fun _ _ => rfl) ?_
  refine .append (transparent_num (hobs _ (by decide))
    (fun i v => i.setActionId (UInt16.ofNat v)) (by decide) fun _ _ => rfl) ?_
  exact transparent_textField (hobs _ (by decide)) (by decide) fun _ _ => rfl

theorem transparent_trailingFields (i : Item) :
    Transparent env types obs cls i.trailingFields := by
  unfold trailingFields
  refine .append (transparent_textField (hobs _ (by decide)) (by decide) fun _ _ => rfl) ?_
  refine .append (transparent_textField (hobs _ (by decide)) (by decide) fun _ _ => rfl) ?_
  refine .append (transparent_intField (hobs _ (by decide))
    (fun i v => i.setDuration (max 0 (UInt32.ofNat v).toInt32)) (by decide) fun _ _ => rfl) ?_
  refine .append (transparent_num (hobs _ (by decide))
    (fun i v => if v != 0 then i.setDecaying .decayingPending else i) (by decide)
    fun _ _ => rfl) ?_
  refine .append (transparent_strField (hobs _ (by decide)) (by decide) fun _ _ => rfl) ?_
  refine .append (transparent_strField (hobs _ (by decide)) (by decide) fun _ _ => rfl) ?_
  refine .append (transparent_strField (hobs _ (by decide)) (by decide) fun _ _ => rfl) ?_
  refine .append (transparent_int32Field (hobs _ (by decide)) (by decide) fun _ _ => rfl) ?_
  refine .append (transparent_int32Field (hobs _ (by decide)) (by decide) fun _ _ => rfl) ?_
  refine .append (transparent_int32Field (hobs _ (by decide)) (by decide) fun _ _ => rfl) ?_
  refine .append (transparent_int32Field (hobs _ (by decide)) (by decide) fun _ _ => rfl) ?_
  refine .append (transparent_int32Field (hobs _ (by decide)) (by decide) fun _ _ => rfl) ?_
  refine .append (transparent_int32Field (hobs _ (by decide)) (by decide) fun _ _ => rfl) ?_
  refine .append (transparent_int32Field (hobs _ (by decide)) (by decide) fun _ _ => rfl) ?_
  refine .append (transparent_intField (hobs _ (by decide))
    (fun i v => i.setIntAttr .hitChance (UInt8.ofNat v).toInt8.toInt32) (by decide)
    fun _ _ => rfl) ?_
  refine .append (transparent_intField (hobs _ (by decide))
    (fun i v => i.setIntAttr .shootRange (UInt8.ofNat v).toUInt32.toInt32) (by decide)
    fun _ _ => rfl) ?_
  exact transparent_strField (hobs _ (by decide)) (by decide) fun _ _ => rfl

end Standard

/-! ## Custom attributes -/

/-- A custom value that is not blank is read back, up to what its text cannot hold. -/
theorem unserialize_serialize {c : CustomAttribute} (h : c ≠ .blank) (rest : Str) :
    ∃ c', CustomAttribute.unserialize (c.serialize ++ rest) = .ok (c', rest) := by
  unfold CustomAttribute.serialize
  rw [List.append_assoc]
  cases c with
  | blank => exact absurd rfl h
  | string v => exact ⟨.string (fitString v), by
      simp [CustomAttribute.unserialize, CustomAttribute.which, CustomAttribute.payload]⟩
  | integer v => exact ⟨_, by
      simp only [CustomAttribute.unserialize, CustomAttribute.which, CustomAttribute.payload,
        CustomAttribute.readNum, read_write]; rfl⟩
  | double bits => exact ⟨_, by
      simp only [CustomAttribute.unserialize, CustomAttribute.which, CustomAttribute.payload,
        CustomAttribute.readNum, read_write]; rfl⟩
  | bool v => exact ⟨_, by
      simp only [CustomAttribute.unserialize, CustomAttribute.which, CustomAttribute.payload,
        CustomAttribute.readNum, read_write]; rfl⟩

/-- No reader knows the position of the blank alternative. -/
theorem unserialize_blank (rest : Str) :
    CustomAttribute.unserialize (CustomAttribute.blank.serialize ++ rest) = .error rest := by
  simp [CustomAttribute.unserialize, CustomAttribute.serialize, CustomAttribute.which,
    CustomAttribute.payload]

theorem serializeCustom_cons_append (e : Str × CustomAttribute) (m : CustomAttributeMap)
    (rest : Str) : serializeCustom (e :: m) ++ rest =
      writeString e.1 ++ (e.2.serialize ++ (serializeCustom m ++ rest)) := by
  simp [serializeCustom]

theorem readCustom_serializeCustom {m : CustomAttributeMap} (h : ∀ e ∈ m, e.2 ≠ .blank)
    (i : Item) (rest : Str) :
    ∃ j, readCustom m.length i (serializeCustom m ++ rest) = .continue j rest := by
  induction m generalizing i with
  | nil => exact ⟨i, rfl⟩
  | cons e m ih =>
    obtain ⟨c, hc⟩ := unserialize_serialize (h e (by simp)) (serializeCustom m ++ rest)
    obtain ⟨j, hj⟩ := ih (fun e he => h e (by simp [he])) (i.setCustomAttribute (fitString e.1) c)
    refine ⟨j, ?_⟩
    rw [serializeCustom_cons_append, List.length_cons, readCustom, readString_writeString]
    dsimp only
    rw [hc]
    exact hj

theorem readCustom_blank {m : CustomAttributeMap} (h : ∃ e ∈ m, e.2 = .blank)
    (i : Item) (rest : Str) :
    ∃ j s, readCustom m.length i (serializeCustom m ++ rest) = .error j s := by
  induction m generalizing i with
  | nil => simp at h
  | cons e m ih =>
    rw [serializeCustom_cons_append, List.length_cons, readCustom, readString_writeString]
    dsimp only
    by_cases hb : e.2 = .blank
    · rw [hb, unserialize_blank]
      exact ⟨i, _, rfl⟩
    · obtain ⟨c, hc⟩ := unserialize_serialize hb (serializeCustom m ++ rest)
      rw [hc]
      have hm : ∃ e ∈ m, e.2 = .blank := by
        obtain ⟨e', he', hb'⟩ := h
        rcases List.mem_cons.mp he' with rfl | he'
        · exact absurd hb' hb
        · exact ⟨e', he', hb'⟩
      exact ih hm _

/-- The map of custom attributes as the stream has it: empty unless the attribute is present. -/
def writtenCustom (i : Item) : CustomAttributeMap :=
  if i.hasAttribute .custom then i.getAttributes.getCustomAttributeMap else []

/-- A door and a bed write no custom attributes. -/
def writesBlank (i : Item) : Bool :=
  i.cls != .door && i.cls != .bed && i.writtenCustom.any (·.2 == .blank)

theorem readAttr_custom (i : Item) {n : ℕ} (hn : n < 256 ^ 8) (s : Str) :
    readAttr env types i .customAttributes (write 8 n ++ s) = readCustom n i s := by
  rw [readAttr_base (by decide), baseReadAttr, read_write, Nat.mod_eq_of_lt hn]

theorem transparent_customField (hobs : Blind env types obs .customAttributes) {i : Item}
    (hlen : i.getAttributes.getCustomAttributeMap.length < 256 ^ 8)
    (h : ∀ e ∈ i.writtenCustom, e.2 ≠ .blank) : Transparent env types obs cls i.customField := by
  refine transparent_field hobs fun hc j _ rest => ?_
  rw [writtenCustom, if_pos hc] at h
  obtain ⟨k, hk⟩ := readCustom_serializeCustom h j rest
  exact ⟨k, by rw [List.append_assoc, readAttr_custom _ hlen, hk]⟩

theorem rejected_customField {i : Item}
    (hlen : i.getAttributes.getCustomAttributeMap.length < 256 ^ 8)
    (h : ∃ e ∈ i.writtenCustom, e.2 = .blank) : Rejected env types cls i.customField := by
  have hc : i.hasAttribute .custom = true := by
    by_contra hc
    simp [writtenCustom, hc] at h
  rw [writtenCustom, if_pos hc] at h
  rw [customField, hc]
  refine rejected_field fun j _ rest => ?_
  obtain ⟨k, s, hk⟩ := readCustom_blank h j rest
  exact ⟨k, s, by rw [List.append_assoc, readAttr_custom _ hlen, hk]⟩

/-! ## What a class writes, it reads -/

/-- The observation that sees nothing. -/
def blind (_ : Item) : Unit := ()

theorem blind_blind (attr : AttrTypes) : Blind env types blind attr := fun _ _ => rfl

theorem transparent_baseSerializeAttr {i : Item}
    (hlen : i.getAttributes.getCustomAttributeMap.length < 256 ^ 8)
    (h : ∀ e ∈ i.writtenCustom, e.2 ≠ .blank) :
    Transparent env types blind cls (i.baseSerializeAttr types) :=
  (transparent_leadingFields (fun attr _ => blind_blind attr) i).append
    ((transparent_dateField (blind_blind _) i).append
      ((transparent_trailingFields (fun attr _ => blind_blind attr) i).append
        (transparent_customField (blind_blind _) hlen h)))

theorem transparent_teleDest (c : Bool) (p : Position) :
    Transparent env types blind .teleport (field c .teleDest
      (write 2 p.x.toNat ++ (write 2 p.y.toNat ++ write 1 p.z.toNat))) := by
  refine transparent_field (blind_blind _) fun _ j hj rest => ?_
  have hr : ∀ s, readAttr env types j .teleDest s = readTeleDest j s := by
    intro s
    simp [readAttr, hj]
  rw [hr, List.append_assoc, List.append_assoc, readTeleDest, read_write]
  dsimp only
  rw [read_write]
  dsimp only
  rw [readNum_write]
  exact ⟨_, rfl⟩

theorem transparent_bed (i : Item) :
    Transparent env types blind .bed (field (i.sleeperGUID != 0) .sleeperGuid
        (write 4 i.sleeperGUID.toNat) ++
      field (i.sleepStart != 0) .sleepStart (write 4 i.sleepStart.toNat)) := by
  refine .append ?_ ?_
  · refine transparent_field (blind_blind _) fun _ j hj rest => ?_
    have hr : ∀ s, readAttr env types j .sleeperGuid s =
        readNum 4 j s fun guid => j.setSleeper env (UInt32.ofNat guid) := by
      intro s
      simp [readAttr, hj]
    rw [hr, readNum_write]
    exact ⟨_, rfl⟩
  · refine transparent_field (blind_blind _) fun _ j hj rest => ?_
    have hr : ∀ s, readAttr env types j .sleepStart s =
        readNum 4 j s fun v => { j with sleepStart := UInt64.ofNat v } := by
      intro s
      simp [readAttr, hj]
    rw [hr, readNum_write]
    exact ⟨_, rfl⟩

variable (env types) in
/-- The attributes of an item without blank custom values are read back by an item of its class. -/
theorem transparent_serializeAttr {i : Item}
    (hlen : i.getAttributes.getCustomAttributeMap.length < 256 ^ 8)
    (h : i.writesBlank = false) : Transparent env types blind i.cls (i.serializeAttr types) := by
  have hw : i.cls ≠ .door → i.cls ≠ .bed → ∀ e ∈ i.writtenCustom, e.2 ≠ .blank := by
    intro hd hb e he hblank
    have : i.writesBlank = true := by
      simp only [writesBlank, Bool.and_eq_true, bne_iff_ne, List.any_eq_true, beq_iff_eq]
      exact ⟨⟨hd, hb⟩, e, he, hblank⟩
    rw [h] at this
    cases this
  unfold serializeAttr
  cases hcls : i.cls with
  | teleport =>
    exact (transparent_baseSerializeAttr hlen (hw (by simp [hcls]) (by simp [hcls]))).append
      (transparent_teleDest true i.destPos)
  | door => exact .nil
  | bed => exact transparent_bed i
  | _ => exact transparent_baseSerializeAttr hlen (hw (by simp [hcls]) (by simp [hcls]))

variable (env types) in
/-- A blank custom value stops the reader. -/
theorem rejected_serializeAttr {i : Item}
    (hlen : i.getAttributes.getCustomAttributeMap.length < 256 ^ 8)
    (h : i.writesBlank = true) : Rejected env types i.cls (i.serializeAttr types) := by
  simp only [writesBlank, Bool.and_eq_true, bne_iff_ne, List.any_eq_true, beq_iff_eq] at h
  obtain ⟨⟨hd, hb⟩, hblank⟩ := h
  have hbase : ∀ {cls}, Rejected env types cls (i.baseSerializeAttr types) := fun {cls} =>
    (transparent_leadingFields (fun attr _ => blind_blind attr) i).append_rejected
      ((transparent_dateField (blind_blind _) i).append_rejected
        ((transparent_trailingFields (fun attr _ => blind_blind attr) i).append_rejected
          (rejected_customField hlen hblank)))
  unfold serializeAttr
  cases hcls : i.cls with
  | teleport => exact hbase.append _
  | door => exact absurd hcls hd
  | bed => exact absurd hcls hb
  | _ => exact hbase

end Item

end OTServBR
