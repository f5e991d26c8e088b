import OTServBR.Condition.Basic
import OTServBR.Persistence.PropStream

/-! # Conditions in the database

A save writes the persistent conditions one after the other, each a header and
the properties of its class, up to an end mark. A login builds a condition of
the type in the header and reads properties into it until the mark.
-/

namespace OTServBR

/-- `ConditionAttr_t` -/
inductive ConditionAttr
  | type | id | ticks | healthTicks | healthGain | manaTicks | manaGain | delayed | owner
  | intervalData | speedDelta | formulaMinA | formulaMinB | formulaMaxA | formulaMaxB
  | lightColor | lightLevel | lightTicks | lightInterval | soulTicks | soulGain | skills | stats
  | outfit | periodDamage | isBuff | subId | «end»
  deriving DecidableEq, Repr

namespace ConditionAttr

def toUInt8 : ConditionAttr → UInt8
  | type => 1 | id => 2 | ticks => 3 | healthTicks => 4 | healthGain => 5 | manaTicks => 6
  | manaGain => 7 | delayed => 8 | owner => 9 | intervalData => 10 | speedDelta => 11
  | formulaMinA => 12 | formulaMinB => 13 | formulaMaxA => 14 | formulaMaxB => 15
  | lightColor => 16 | lightLevel => 17 | lightTicks => 18 | lightInterval => 19 | soulTicks => 20
  | soulGain => 21 | skills => 22 | stats => 23 | outfit => 24 | periodDamage => 25 | isBuff => 26
  | subId => 27 | «end» => 254

def all : List ConditionAttr :=
  [type, id, ticks, healthTicks, healthGain, manaTicks, manaGain, delayed, owner, intervalData,
    speedDelta, formulaMinA, formulaMinB, formulaMaxA, formulaMaxB, lightColor, lightLevel,
    lightTicks, lightInterval, soulTicks, soulGain, skills, stats, outfit, periodDamage, isBuff,
    subId, «end»]

def ofUInt8 (b : UInt8) : Option ConditionAttr := all.find? (·.toUInt8 == b)

@[simp] theorem ofUInt8_toUInt8 (attr : ConditionAttr) : ofUInt8 attr.toUInt8 = some attr := by
  cases attr <;> rfl

end ConditionAttr

open PropWriteStream PropStream

/-- The number of a signed 32-bit read. -/
def int32 (v : ℕ) : Int32 := (UInt32.ofNat v).toInt32

def writeInt32 (v : Int32) : Str := write 4 v.toUInt32.toNat

namespace IntervalInfo

def bytes (i : IntervalInfo) : Str :=
  writeInt32 i.timeLeft ++ writeInt32 i.value ++ writeInt32 i.interval

/-- The object in the twelve bytes of a `memcpy`. -/
def ofBytes (s : Str) : IntervalInfo where
  timeLeft := int32 (LittleEndian.value (s.take 4))
  value := int32 (LittleEndian.value ((s.drop 4).take 4))
  interval := int32 (LittleEndian.value ((s.drop 8).take 4))

end IntervalInfo

namespace Outfit

def bytes (o : Outfit) : Str :=
  write 2 o.lookType.toNat ++ write 2 o.lookTypeEx.toNat ++ write 2 o.lookMount.toNat ++
    [o.lookHead, o.lookBody, o.lookLegs, o.lookFeet, o.lookAddons, o.padding]

/-- The object in the twelve bytes of a `memcpy`. -/
def ofBytes (s : Str) : Outfit where
  lookType := .ofNat (LittleEndian.value (s.take 2))
  lookTypeEx := .ofNat (LittleEndian.value ((s.drop 2).take 2))
  lookMount := .ofNat (LittleEndian.value ((s.drop 4).take 2))
  lookHead := s.getD 6 0
  lookBody := s.getD 7 0
  lookLegs := s.getD 8 0
  lookFeet := s.getD 9 0
  lookAddons := s.getD 10 0
  padding := s.getD 11 0

end Outfit

namespace Condition

/-- A property with its code. -/
def prop (attr : ConditionAttr) (value : Str) : Str := attr.toUInt8 :: value

/-- `Condition::serialize` -/
def serializeHeader (c : Condition) : Str :=
  prop .type (write 4 c.conditionType.bits.toNat) ++
    (prop .id (writeInt32 c.id.toInt32) ++
    (prop .ticks (writeInt32 c.ticks) ++
    (prop .isBuff (write 1 c.isBuff.toNat) ++
    prop .subId (write 4 c.subId.toNat))))

/-- What the overrides of `serialize` add. -/
def Payload.serialize : Payload → Str
  | generic | invisible | spellCooldown | spellGroupCooldown => []
  | attributes a =>
    a.skills.toList.flatMap (fun v => prop .skills (writeInt32 v)) ++
      a.stats.toList.flatMap (fun v => prop .stats (writeInt32 v))
  | regeneration r =>
    prop .healthTicks (write 4 r.healthTicks.toNat) ++
      (prop .healthGain (write 4 r.healthGain.toNat) ++
      (prop .manaTicks (write 4 r.manaTicks.toNat) ++
      prop .manaGain (write 4 r.manaGain.toNat)))
  | soul s =>
    prop .soulGain (write 4 s.soulGain.toNat) ++ prop .soulTicks (write 4 s.soulTicks.toNat)
  | damage d =>
    prop .delayed (write 1 d.delayed.toNat) ++
      (prop .periodDamage (writeInt32 d.periodDamage) ++
      d.damageList.flatMap fun i => prop .intervalData i.bytes)
  | speed s =>
    prop .speedDelta (writeInt32 s.speedDelta) ++
      (prop .formulaMinA (write 4 s.mina.toNat) ++
      (prop .formulaMinB (write 4 s.minb.toNat) ++
      (prop .formulaMaxA (write 4 s.maxa.toNat) ++
      prop .formulaMaxB (write 4 s.maxb.toNat))))
  | outfit o => prop .outfit o.bytes
  | light l =>
    prop .lightColor (write 4 l.lightInfo.color.toNat) ++
      (prop .lightLevel (write 4 l.lightInfo.level.toNat) ++
      (prop .lightTicks (write 4 l.internalLightTicks.toNat) ++
      prop .lightInterval (write 4 l.lightChangeInterval.toNat)))

def serialize (c : Condition) : Str := c.serializeHeader ++ c.payload.serialize

/-- The result of reading, with the condition and the stream it leaves. -/
structure Unserialized where
  ok : Bool
  condition : Condition
  stream : Str

/-- Read a number and store it. -/
def readProp (size : ℕ) (c : Condition) (s : Str) (set : ℕ → Condition) : Unserialized :=
  match read size s with
  | .error s => ⟨false, c, s⟩
  | .ok (v, s) => ⟨true, set v, s⟩

/-- Copy the bytes of an object and store it. -/
def readBytes (size : ℕ) (c : Condition) (s : Str) (set : Str → Condition) : Unserialized :=
  if s.length < size then ⟨false, c, s⟩ else ⟨true, set (s.take size), s.drop size⟩

/-- `Condition::unserializeProp` -/
def baseUnserializeProp (c : Condition) (attr : ConditionAttr) (s : Str) : Unserialized :=
  match attr with
  | .type => readProp 4 c s fun v => { c with conditionType := ⟨.ofNat v⟩ }
  | .id => readProp 4 c s fun v => { c with id := (int32 v).toInt8 }
  | .ticks => readProp 4 c s fun v => { c with ticks := int32 v }
  | .isBuff => readProp 1 c s fun v => { c with isBuff := v ≠ 0 }
  | .subId => readProp 4 c s fun v => { c with subId := .ofNat v }
  | .end => ⟨true, c, s⟩
  | _ => ⟨false, c, s⟩

/-- `skills[currentSkill++]`; a store beyond the array is not defined. -/
def Attributes.readSkill (a : Attributes) (v : Int32) : Attributes :=
  { a with skills := a.skills.setIfInBounds a.currentSkill v, currentSkill := a.currentSkill + 1 }

/-- `stats[currentStat++]`; a store beyond the array is not defined. -/
def Attributes.readStat (a : Attributes) (v : Int32) : Attributes :=
  { a with stats := a.stats.setIfInBounds a.currentStat v, currentStat := a.currentStat + 1 }

/-- An interval prolongs a condition that is not endless. -/
def readInterval (c : Condition) (d : Damage) (i : IntervalInfo) : Condition :=
  { c with
    payload := .damage { d with damageList := d.damageList ++ [i] }
    ticks := if c.ticks ≠ -1 then c.ticks + i.interval else c.ticks }

/-- The virtual `unserializeProp`. -/
def unserializeProp (c : Condition) (attr : ConditionAttr) (s : Str) : Unserialized :=
  match c.payload, attr with
  | .attributes a, .skills =>
    readProp 4 c s fun v => { c with payload := .attributes (a.readSkill (int32 v)) }
  | .attributes a, .stats =>
    readProp 4 c s fun v => { c with payload := .attributes (a.readStat (int32 v)) }
  | .regeneration r, .healthTicks =>
    readProp 4 c s fun v => { c with payload := .regeneration { r with healthTicks := .ofNat v } }
  | .regeneration r, .healthGain =>
    readProp 4 c s fun v => { c with payload := .regeneration { r with healthGain := .ofNat v } }
  | .regeneration r, .manaTicks =>
    readProp 4 c s fun v => { c with payload := .regeneration { r with manaTicks := .ofNat v } }
  | .regeneration r, .manaGain =>
    readProp 4 c s fun v => { c with payload := .regeneration { r with manaGain := .ofNat v } }
  | .soul so, .soulGain =>
    readProp 4 c s fun v => { c with payload := .soul { so with soulGain := .ofNat v } }
  | .soul so, .soulTicks =>
    readProp 4 c s fun v => { c with payload := .soul { so with soulTicks := .ofNat v } }
  | .damage d, .delayed =>
    readProp 1 c s fun v => { c with payload := .damage { d with delayed := v ≠ 0 } }
  | .damage d, .periodDamage =>
    readProp 4 c s fun v => { c with payload := .damage { d with periodDamage := int32 v } }
  | .damage _, .owner => readBytes 4 c s fun _ => c
  | .damage d, .intervalData => readBytes 12 c s fun b => c.readInterval d (.ofBytes b)
  | .speed sp, .speedDelta =>
    readProp 4 c s fun v => { c with payload := .speed { sp with speedDelta := int32 v } }
  | .speed sp, .formulaMinA =>
    readProp 4 c s fun v => { c with payload := .speed { sp with mina := .ofNat v } }
  | .speed sp, .formulaMinB =>
    readProp 4 c s fun v => { c with payload := .speed { sp with minb := .ofNat v } }
  | .speed sp, .formulaMaxA =>
    readProp 4 c s fun v => { c with payload := .speed { sp with maxa := .ofNat v } }
  | .speed sp, .formulaMaxB =>
    readProp 4 c s fun v => { c with payload := .speed { sp with maxb := .ofNat v } }
  | .outfit _, .outfit => readBytes 12 c s fun b => { c with payload := .outfit (.ofBytes b) }
  | .light l, .lightColor =>
    readProp 4 c s fun v =>
      { c with payload := .light { l with lightInfo := { l.lightInfo with color := .ofNat v } } }
  | .light l, .lightLevel =>
    readProp 4 c s fun v =>
      { c with payload := .light { l with lightInfo := { l.lightInfo with level := .ofNat v } } }
  | .light l, .lightTicks =>
    readProp 4 c s fun v => { c with payload := .light { l with internalLightTicks := .ofNat v } }
  | .light l, .lightInterval =>
    readProp 4 c s fun v => { c with payload := .light { l with lightChangeInterval := .ofNat v } }
  | _, _ => c.baseUnserializeProp attr s

/-- The loop of `unserialize`; every turn reads at least one byte of the stream. -/
def unserializeLoop : ℕ → Condition → Str → Unserialized
  | 0, c, s => ⟨true, c, s⟩
  | fuel + 1, c, s =>
    match read 1 s with
    | .error s => ⟨true, c, s⟩
    | .ok (b, s) =>
      match ConditionAttr.ofUInt8 (.ofNat b) with
      | none => ⟨false, c, s⟩
      | some .end => ⟨true, c, s⟩
      | some attr =>
        let r := c.unserializeProp attr s
        if r.ok then unserializeLoop fuel r.condition r.stream else r

def unserialize (c : Condition) (s : Str) : Unserialized := c.unserializeLoop (s.length + 1) s

/-- A number after its code. -/
def readTagged (attr : ConditionAttr) (size : ℕ) (s : Str) : Option (ℕ × Str) :=
  match read 1 s with
  | .error _ => none
  | .ok (b, s) =>
    if UInt8.ofNat b = attr.toUInt8 then
      match read size s with
      | .error _ => none
      | .ok r => some r
    else none

/-- `createCondition` of a stream: the header must come in the order of `serialize`. -/
def createConditionOf (s : Str) : Option (Condition × Str) := do
  let (type, s) ← readTagged .type 4 s
  let (id, s) ← readTagged .id 4 s
  let (ticks, s) ← readTagged .ticks 4 s
  let (buff, s) ← readTagged .isBuff 1 s
  let (subId, s) ← readTagged .subId 4 s
  let c ← createCondition (int32 id).toInt8 ⟨.ofNat type⟩ (int32 ticks) 0 (buff ≠ 0) (.ofNat subId)
  return (c, s)

/-- The loop of `loadPlayer`, which fills `storedConditionList` from the front. -/
def loadLoop : ℕ → List Condition → Str → List Condition
  | 0, storedConditionList, _ => storedConditionList
  | fuel + 1, storedConditionList, s =>
    match createConditionOf s with
    | none => storedConditionList
    | some (c, s) =>
      let r := c.unserialize s
      loadLoop fuel (if r.ok then r.condition :: storedConditionList else storedConditionList)
        r.stream

/-- Conditions of `loadPlayer`; every condition takes up some of the stream. -/
def loadConditions (s : Str) : List Condition := loadLoop (s.length + 1) [] s

/-- Conditions of `savePlayer`. -/
def saveConditions (conditions : List Condition) : Str :=
  (conditions.filter isPersistent).flatMap fun c => c.serialize ++ [ConditionAttr.end.toUInt8]

end Condition

@[simp] theorem length_write (size v : ℕ) : (write size v).length = size :=
  LittleEndian.length_bytes size v

@[simp] theorem value_write (size v : ℕ) : LittleEndian.value (write size v) = v % 256 ^ size :=
  LittleEndian.value_bytes size v

@[simp] theorem int32_toNat (v : Int32) : int32 v.toUInt32.toNat = v := by
  rw [int32, UInt32.ofNat_toNat, Int32.toInt32_toUInt32]

@[simp] theorem length_writeInt32 (v : Int32) : (writeInt32 v).length = 4 := length_write 4 _

namespace IntervalInfo

@[simp] theorem length_bytes (i : IntervalInfo) : i.bytes.length = 12 := by
  simp [bytes]

@[simp] theorem ofBytes_bytes (i : IntervalInfo) : ofBytes i.bytes = i := by
  obtain ⟨timeLeft, value, interval⟩ := i
  simp (disch := simp) [ofBytes, bytes, writeInt32, List.drop_append, List.drop_eq_nil_of_le,
    List.take_of_length_le]

end IntervalInfo

namespace Outfit

@[simp] theorem length_bytes (o : Outfit) : o.bytes.length = 12 := by
  simp [bytes]

@[simp] theorem ofBytes_bytes (o : Outfit) : ofBytes o.bytes = o := by
  obtain ⟨⟩ := o
  simp (disch := simp) [ofBytes, bytes, List.drop_append, List.drop_eq_nil_of_le]

end Outfit

namespace Condition

variable {c c' c'' : Condition} {s s' : Str}

/-- Reading the bytes, whatever follows, turns one condition into another. -/
def Reads (c : Condition) (s : Str) (c' : Condition) : Prop :=
  ∀ fuel rest, (s ++ rest).length < fuel → ∃ fuel', rest.length < fuel' ∧
    unserializeLoop fuel c (s ++ rest) = unserializeLoop fuel' c' rest

theorem Reads.nil : Reads c [] c := fun fuel _ h => ⟨fuel, h, rfl⟩

theorem Reads.append (h : Reads c s c') (h' : Reads c' s' c'') : Reads c (s ++ s') c'' := by
  intro fuel rest hfuel
  rw [List.append_assoc] at hfuel ⊢
  obtain ⟨fuel', hfuel', hloop⟩ := h fuel (s' ++ rest) hfuel
  obtain ⟨fuel'', hfuel'', hloop'⟩ := h' fuel' rest hfuel'
  exact ⟨fuel'', hfuel'', hloop.trans hloop'⟩

/-- One turn of the loop. -/
theorem reads_prop {attr : ConditionAttr} {value : Str} (hattr : attr ≠ .end)
    (h : ∀ rest, c.unserializeProp attr (value ++ rest) = ⟨true, c', rest⟩) :
    Reads c (prop attr value) c' := by
  intro fuel rest hfuel
  cases fuel with
  | zero => cases hfuel
  | succ fuel =>
    simp only [prop, List.cons_append, List.length_cons, List.length_append] at hfuel
    refine ⟨fuel, by omega, ?_⟩
    rw [prop, List.cons_append, unserializeLoop, read_cons]
    dsimp only
    rw [UInt8.ofNat_toNat, ConditionAttr.ofUInt8_toUInt8]
    cases attr <;> first | exact absurd rfl hattr | simp only [h, if_true]

theorem readProp_write {size v : ℕ} {rest : Str} {set : ℕ → Condition} (hv : v < 256 ^ size) :
    readProp size c (write size v ++ rest) set = ⟨true, set v, rest⟩ := by
  rw [readProp, read_write, Nat.mod_eq_of_lt hv]

/-- A number under its code is stored. -/
theorem reads_number {attr : ConditionAttr} {size v : ℕ} {set : ℕ → Condition}
    (hattr : attr ≠ .end) (hv : v < 256 ^ size)
    (h : ∀ rest, c.unserializeProp attr rest = readProp size c rest set) :
    Reads c (prop attr (write size v)) (set v) :=
  reads_prop hattr fun rest => by rw [h, readProp_write hv]

theorem reads_uint32 {attr : ConditionAttr} {v : UInt32} (set : UInt32 → Condition)
    (hattr : attr ≠ .end)
    (h : ∀ rest, c.unserializeProp attr rest = readProp 4 c rest fun v => set (.ofNat v)) :
    Reads c (prop attr (write 4 v.toNat)) (set v) := by
  have hreads := reads_number hattr v.toNat_lt h
  rwa [UInt32.ofNat_toNat] at hreads

theorem reads_uint8 {attr : ConditionAttr} {v : UInt8} (set : UInt8 → Condition)
    (hattr : attr ≠ .end)
    (h : ∀ rest, c.unserializeProp attr rest = readProp 4 c rest fun v => set (.ofNat v)) :
    Reads c (prop attr (write 4 v.toNat)) (set v) := by
  have hv : v.toNat < 256 ^ 4 := v.toNat_lt.trans (by decide)
  have hreads := reads_number hattr hv h
  rwa [UInt8.ofNat_toNat] at hreads

theorem reads_int32 {attr : ConditionAttr} {v : Int32} (set : Int32 → Condition)
    (hattr : attr ≠ .end)
    (h : ∀ rest, c.unserializeProp attr rest = readProp 4 c rest fun v => set (int32 v)) :
    Reads c (prop attr (writeInt32 v)) (set v) := by
  have hreads := reads_number hattr v.toUInt32.toNat_lt h
  rwa [int32_toNat] at hreads

theorem reads_bool {attr : ConditionAttr} {v : Bool} (set : Bool → Condition)
    (hattr : attr ≠ .end)
    (h : ∀ rest, c.unserializeProp attr rest = readProp 1 c rest fun v => set (v ≠ 0)) :
    Reads c (prop attr (write 1 v.toNat)) (set v) := by
  have hreads := reads_number (v := v.toNat) hattr (by cases v <;> decide) h
  cases v <;> exact hreads

theorem reads_bytes {attr : ConditionAttr} {value : Str} (set : Str → Condition)
    (hattr : attr ≠ .end)
    (h : ∀ rest, c.unserializeProp attr rest = readBytes value.length c rest set) :
    Reads c (prop attr value) (set value) :=
  reads_prop hattr fun rest => by
    rw [h, readBytes, if_neg (by simp), List.take_left, List.drop_left]

theorem reads_regeneration {r r' : Regeneration} :
    Reads { c with payload := .regeneration r' } (Payload.regeneration r).serialize
      { c with payload := .regeneration r } := by
  refine .append (reads_uint32 (fun v => { c with payload := .regeneration { r' with
    healthTicks := v } }) (by decide) fun _ => rfl) ?_
  refine .append (reads_uint32 (fun v => { c with payload := .regeneration { r' with
    healthTicks := r.healthTicks, healthGain := v } }) (by decide) fun _ => rfl) ?_
  refine .append (reads_uint32 (fun v => { c with payload := .regeneration { r with
    manaTicks := v, manaGain := r'.manaGain } }) (by decide) fun _ => rfl) ?_
  exact reads_uint32 (fun v => { c with payload := .regeneration { r with manaGain := v } })
    (by decide) fun _ => rfl

theorem reads_soul {so so' : Soul} :
    Reads { c with payload := .soul so' } (Payload.soul so).serialize
      { c with payload := .soul so } := by
  refine .append (reads_uint32 (fun v => { c with payload := .soul { so' with soulGain := v } })
    (by decide) fun _ => rfl) ?_
  exact reads_uint32 (fun v => { c with payload := .soul { so with soulTicks := v } })
    (by decide) fun _ => rfl

theorem reads_speed {sp sp' : Speed} :
    Reads { c with payload := .speed sp' } (Payload.speed sp).serialize
      { c with payload := .speed sp } := by
  refine .append (reads_int32 (fun v => { c with payload := .speed { sp' with speedDelta := v } })
    (by decide) fun _ => rfl) ?_
  refine .append (reads_uint32 (fun v => { c with payload := .speed { sp' with
    speedDelta := sp.speedDelta, mina := v } }) (by decide) fun _ => rfl) ?_
  refine .append (reads_uint32 (fun v => { c with payload := .speed { sp with
    minb := v, maxa := sp'.maxa, maxb := sp'.maxb } }) (by decide) fun _ => rfl) ?_
  refine .append (reads_uint32 (fun v => { c with payload := .speed { sp with
    maxa := v, maxb := sp'.maxb } }) (by decide) fun _ => rfl) ?_
  exact reads_uint32 (fun v => { c with payload := .speed { sp with maxb := v } })
    (by decide) fun _ => rfl

theorem reads_outfit {o o' : Outfit} :
    Reads { c with payload := .outfit o' } (Payload.outfit o).serialize
      { c with payload := .outfit o } := by
  have hreads : Reads { c with payload := .outfit o' } (prop .outfit o.bytes)
      { c with payload := .outfit (.ofBytes o.bytes) } :=
    reads_bytes (fun b => { c with payload := .outfit (.ofBytes b) }) (by decide) fun _ => by
      rw [Outfit.length_bytes]
      rfl
  rwa [Outfit.ofBytes_bytes] at hreads

theorem reads_light {l l' : Light} :
    Reads { c with payload := .light l' } (Payload.light l).serialize
      { c with payload := .light l } := by
  refine .append (reads_uint8 (fun v => { c with payload := .light { l' with
    lightInfo := { l'.lightInfo with color := v } } }) (by decide) fun _ => rfl) ?_
  refine .append (reads_uint8 (fun v => { c with payload := .light { l' with
    lightInfo := { l.lightInfo with level := v } } }) (by decide) fun _ => rfl) ?_
  refine .append (reads_uint32 (fun v => { c with payload := .light { l with
    internalLightTicks := v, lightChangeInterval := l'.lightChangeInterval } })
    (by decide) fun _ => rfl) ?_
  exact reads_uint32 (fun v => { c with payload := .light { l with lightChangeInterval := v } })
    (by decide) fun _ => rfl

/-- The properties of a list, read one after the other. -/
theorem reads_flatMap {α β : Type} {bytes : α → Str} {embed : β → Condition} {read : β → α → β}
    (h : ∀ b a, Reads (embed b) (bytes a) (embed (read b a))) (l : List α) (b : β) :
    Reads (embed b) (l.flatMap bytes) (embed (l.foldl read b)) := by
  induction l generalizing b with
  | nil => exact .nil
  | cons a l ih =>
    rw [List.flatMap_cons]
    exact (h b a).append (ih (read b a))

/-- The intervals are appended in order; each may prolong the condition. -/
theorem reads_intervals (l : List IntervalInfo) (d : Damage) (c : Condition) :
    ∃ ticks, Reads { c with payload := .damage d } (l.flatMap fun i => prop .intervalData i.bytes)
      { c with ticks, payload := .damage { d with damageList := d.damageList ++ l } } := by
  induction l generalizing d c with
  | nil => exact ⟨c.ticks, by rw [List.append_nil]; exact .nil⟩
  | cons i l ih =>
    have hfirst : Reads { c with payload := .damage d } (prop .intervalData i.bytes)
        (c.readInterval d (.ofBytes i.bytes)) :=
      reads_bytes (fun b => c.readInterval d (.ofBytes b)) (by decide) fun _ => by
        rw [IntervalInfo.length_bytes]
        rfl
    rw [IntervalInfo.ofBytes_bytes] at hfirst
    obtain ⟨ticks, hrest⟩ := ih { d with damageList := d.damageList ++ [i] } (c.readInterval d i)
    rw [List.append_assoc] at hrest
    exact ⟨ticks, by rw [List.flatMap_cons]; exact hfirst.append hrest⟩

theorem reads_damage {d d' : Damage} (hnil : d'.damageList = []) :
    ∃ ticks, Reads { c with payload := .damage d' } (Payload.damage d).serialize
      { c with ticks, payload := .damage d } := by
  obtain ⟨ticks, hlist⟩ := reads_intervals d.damageList { d with damageList := [] } c
  refine ⟨ticks, .append (reads_bool (fun v => { c with payload := .damage { d' with
    delayed := v } }) (by decide) fun _ => rfl) ?_⟩
  refine .append (reads_int32 (fun v => { c with payload := .damage { d with
    periodDamage := v, damageList := d'.damageList } }) (by decide) fun _ => rfl) ?_
  rwa [hnil]

/-- Storing values one after the other from an index on. -/
theorem toList_foldl_store {α : Type} {n : ℕ} (l : List α) (a : Vector α n) {i : ℕ}
    (h : i + l.length ≤ n) :
    (l.foldl (fun (p : Vector α n × ℕ) v => (p.1.setIfInBounds p.2 v, p.2 + 1)) (a, i)).1.toList =
      a.toList.take i ++ (l ++ a.toList.drop (i + l.length)) := by
  induction l generalizing a i with
  | nil => simp
  | cons v l ih =>
    rw [List.length_cons] at h
    have hi : i < a.toList.length := by
      rw [Vector.length_toList]
      omega
    have htake : (a.setIfInBounds i v).toList.take (i + 1) = a.toList.take i ++ [v] := by
      rw [Vector.toList_setIfInBounds, ← List.take_append_getElem (by simpa using hi),
        List.take_set_of_le le_rfl, List.getElem_set_self]
    have hdrop : (a.setIfInBounds i v).toList.drop (i + 1 + l.length) =
        a.toList.drop (i + (l.length + 1)) := by
      rw [Vector.toList_setIfInBounds, List.drop_set_of_lt (by omega), Nat.add_assoc,
        Nat.add_comm 1]
    rw [List.foldl_cons, ih _ (by omega), htake, hdrop, List.append_assoc]
    rfl

/-- Storing all the values of an array from its start on. -/
theorem foldl_store_toList {α : Type} {n : ℕ} (v a : Vector α n) :
    v.toList.foldl (fun (p : Vector α n × ℕ) v => (p.1.setIfInBounds p.2 v, p.2 + 1)) (a, 0) =
      (v, n) := by
  have hcursor : ∀ (l : List α) (p : Vector α n × ℕ),
      (l.foldl (fun p v => (p.1.setIfInBounds p.2 v, p.2 + 1)) p).2 = p.2 + l.length := by
    intro l
    induction l with
    | nil => exact fun _ => rfl
    | cons v l ih => exact fun p => (ih _).trans (by dsimp only; rw [List.length_cons]; omega)
  refine Prod.ext ?_ ((hcursor _ _).trans (by simp))
  have hlist := toList_foldl_store v.toList a (i := 0) (by simp)
  rw [List.take_zero, List.nil_append, List.drop_of_length_le (by simp), List.append_nil] at hlist
  exact Vector.toList_inj.mp hlist

theorem foldl_readSkill (l : List Int32) (a : Attributes) :
    l.foldl Attributes.readSkill a =
      let p := l.foldl (fun (p : Vector Int32 13 × ℕ) v => (p.1.setIfInBounds p.2 v, p.2 + 1))
        (a.skills, a.currentSkill)
      { a with skills := p.1, currentSkill := p.2 } := by
  induction l generalizing a with
  | nil => rfl
  | cons v l ih => exact ih _

theorem foldl_readStat (l : List Int32) (a : Attributes) :
    l.foldl Attributes.readStat a =
      let p := l.foldl (fun (p : Vector Int32 5 × ℕ) v => (p.1.setIfInBounds p.2 v, p.2 + 1))
        (a.stats, a.currentStat)
      { a with stats := p.1, currentStat := p.2 } := by
  induction l generalizing a with
  | nil => rfl
  | cons v l ih => exact ih _

/-- A condition of the attributes class. -/
abbrev ofAttributes (c : Condition) (a : Attributes) : Condition :=
  { c with payload := .attributes a }

theorem reads_attributes {a : Attributes} :
    Reads (c.ofAttributes {}) (Payload.attributes a).serialize
      (c.ofAttributes
        { a with currentSkill := 13, currentStat := 5, disableDefense := false }) := by
  have hskills : Reads (c.ofAttributes {})
      (a.skills.toList.flatMap fun v => prop .skills (writeInt32 v))
      (c.ofAttributes (a.skills.toList.foldl Attributes.readSkill {})) :=
    reads_flatMap (fun a _ => reads_int32 (fun v => c.ofAttributes (a.readSkill v)) (by decide)
      fun _ => rfl) _ _
  have hstats : Reads (c.ofAttributes { skills := a.skills, currentSkill := 13 })
      (a.stats.toList.flatMap fun v => prop .stats (writeInt32 v))
      (c.ofAttributes
        (a.stats.toList.foldl Attributes.readStat { skills := a.skills, currentSkill := 13 })) :=
    reads_flatMap (fun a _ => reads_int32 (fun v => c.ofAttributes (a.readStat v)) (by decide)
      fun _ => rfl) _ _
  rw [foldl_readSkill, foldl_store_toList] at hskills
  rw [foldl_readStat, foldl_store_toList] at hstats
  exact hskills.append hstats

/-- What the constructor of the class makes of its members. -/
def Payload.initial : Payload → Payload
  | generic => generic
  | attributes _ => attributes {}
  | regeneration _ => regeneration {}
  | soul _ => soul {}
  | invisible => invisible
  | damage _ => damage {}
  | speed _ => speed { speedDelta := 0 }
  | outfit _ => outfit {}
  | light _ => light { lightInfo := {} }
  | spellCooldown => spellCooldown
  | spellGroupCooldown => spellGroupCooldown

/-- The object is of the class that its type stands for. -/
def OfClass (c : Condition) : Prop := newPayload c.conditionType 0 = some c.payload.initial

instance (c : Condition) : Decidable (OfClass c) := inferInstanceAs (Decidable (_ = _))

def disableDefense (c : Condition) : Bool :=
  match c.payload with
  | .attributes a => a.disableDefense
  | _ => false

/-- What a condition says, without the cursors of its reading and, for a damage, without the
ticks, which are those of its list. -/
def content (c : Condition) : Condition :=
  match c.payload with
  | .attributes a => c.ofAttributes { a with currentSkill := 0, currentStat := 0 }
  | .damage _ => { c with ticks := 0 }
  | _ => c

/-- The content with the defence switched on. -/
def storedContent (c : Condition) : Condition :=
  match c.payload with
  | .attributes a =>
    c.ofAttributes { a with currentSkill := 0, currentStat := 0, disableDefense := false }
  | _ => c.content

/-- The members of a class are read back. -/
theorem reads_payload : ∃ c', Reads
    { c with ticks := initialTicks c.payload.initial c.ticks, payload := c.payload.initial }
    c.payload.serialize c' ∧ c'.content = c.storedContent := by
  obtain ⟨type, id, ticks, buff, subId, payload⟩ := c
  cases payload with
  | attributes a => exact ⟨_, reads_attributes, rfl⟩
  | regeneration r => exact ⟨_, reads_regeneration, rfl⟩
  | soul so => exact ⟨_, reads_soul, rfl⟩
  | damage d =>
    obtain ⟨ticks', hreads⟩ := @reads_damage ⟨type, id, 0, buff, subId, .generic⟩ d {} rfl
    exact ⟨_, hreads, rfl⟩
  | speed sp => exact ⟨_, reads_speed, rfl⟩
  | outfit o => exact ⟨_, reads_outfit, rfl⟩
  | light l => exact ⟨_, reads_light, rfl⟩
  | generic | invisible | spellCooldown | spellGroupCooldown => exact ⟨_, .nil, rfl⟩

theorem readTagged_prop {attr : ConditionAttr} {size v : ℕ} {rest : Str} (hv : v < 256 ^ size) :
    readTagged attr size (prop attr (write size v) ++ rest) = some (v, rest) := by
  rw [readTagged, prop, List.cons_append, read_cons]
  dsimp only
  rw [UInt8.ofNat_toNat, if_pos rfl, read_write, Nat.mod_eq_of_lt hv]

theorem readTagged_uint32 {attr : ConditionAttr} {v : UInt32} {rest : Str} :
    readTagged attr 4 (prop attr (write 4 v.toNat) ++ rest) = some (v.toNat, rest) :=
  readTagged_prop v.toNat_lt

/-- The header names the class and gives the identity. -/
theorem createConditionOf_serializeHeader (h : OfClass c) (rest : Str) :
    createConditionOf (c.serializeHeader ++ rest) = some
      ({ c with ticks := initialTicks c.payload.initial c.ticks, payload := c.payload.initial },
        rest) := by
  have hbuff : c.isBuff.toNat < 256 ^ 1 := by cases c.isBuff <;> decide
  have hflag : decide (c.isBuff.toNat ≠ 0) = c.isBuff := by cases c.isBuff <;> rfl
  unfold createConditionOf serializeHeader
  simp only [List.append_assoc, writeInt32, readTagged_uint32, readTagged_prop hbuff,
    Option.bind_eq_bind, Option.bind_some, int32_toNat, Int8.toInt8_toInt32, UInt32.ofNat_toNat,
    hflag]
  simp only [createCondition, show newPayload c.conditionType 0 = _ from h]
  rfl

/-- The end mark stops the reading. -/
theorem unserialize_of_reads {s rest : Str} (h : Reads c s c') :
    c.unserialize (s ++ ConditionAttr.end.toUInt8 :: rest) = ⟨true, c', rest⟩ := by
  obtain ⟨fuel, hfuel, hloop⟩ := h _ (ConditionAttr.end.toUInt8 :: rest) (Nat.lt_succ_self _)
  rw [unserialize, hloop]
  cases fuel with
  | zero => cases hfuel
  | succ fuel =>
    rw [unserializeLoop, read_cons]
    dsimp only
    rw [UInt8.ofNat_toNat, ConditionAttr.ofUInt8_toUInt8]

/-- A condition in the stream. -/
abbrev record (c : Condition) : Str := c.serialize ++ [ConditionAttr.end.toUInt8]

theorem record_append {rest : Str} : c.record ++ rest =
    c.serializeHeader ++ (c.payload.serialize ++ ConditionAttr.end.toUInt8 :: rest) := by
  simp [record, serialize]

/-- The conditions are read back one by one and come out in reverse. -/
theorem loadLoop_records {l : List Condition} (hl : ∀ c ∈ l, OfClass c) (stored : List Condition)
    {fuel : ℕ} (hfuel : (l.flatMap record).length < fuel) :
    ∃ loaded : List Condition, loadLoop fuel stored (l.flatMap record) = loaded.reverse ++ stored ∧
      loaded.map content = l.map storedContent := by
  induction l generalizing stored fuel with
  | nil =>
    cases fuel with
    | zero => cases hfuel
    | succ fuel => exact ⟨[], rfl, rfl⟩
  | cons c l ih =>
    cases fuel with
    | zero => cases hfuel
    | succ fuel =>
      obtain ⟨hc, hl⟩ := List.forall_mem_cons.mp hl
      obtain ⟨c', hreads, hcontent⟩ := reads_payload (c := c)
      have hshort : (l.flatMap record).length < fuel := by
        rw [List.flatMap_cons, List.length_append, record, List.length_append,
          List.length_singleton] at hfuel
        omega
      obtain ⟨loaded, hloaded, hmap⟩ := ih hl (c' :: stored) hshort
      refine ⟨c' :: loaded, ?_, by rw [List.map_cons, List.map_cons, hcontent, hmap]⟩
      rw [List.flatMap_cons, record_append, loadLoop, createConditionOf_serializeHeader hc]
      dsimp only
      rw [unserialize_of_reads hreads, List.reverse_cons, List.append_assoc]
      exact hloaded

theorem disableDefense_content : c.content.disableDefense = c.disableDefense := by
  obtain ⟨type, id, ticks, buff, subId, payload⟩ := c
  cases payload <;> rfl

theorem disableDefense_storedContent : c.storedContent.disableDefense = false := by
  obtain ⟨type, id, ticks, buff, subId, payload⟩ := c
  cases payload <;> rfl

theorem storedContent_eq_content : c.storedContent = c.content ↔ c.disableDefense = false := by
  constructor
  · intro h
    rw [← disableDefense_content, ← h, disableDefense_storedContent]
  · intro h
    obtain ⟨type, id, ticks, buff, subId, payload⟩ := c
    cases payload with
    | attributes a =>
      change a.disableDefense = false at h
      simp only [storedContent, content, ← h]
    | _ => rfl

/-- A login gives back the conditions of the save, each with what it says, exactly if none of
them takes away the defence. -/
theorem loadConditions_perm_iff {l : List Condition} (hclass : ∀ c ∈ l, OfClass c)
    (hpersistent : ∀ c ∈ l, c.isPersistent) :
    ((loadConditions (saveConditions l)).map content).Perm (l.map content) ↔
      ∀ c ∈ l, c.disableDefense = false := by
  have hsave : saveConditions l = l.flatMap record := by
    rw [saveConditions, List.filter_eq_self.mpr hpersistent]
  obtain ⟨loaded, hloaded, hmap⟩ := loadLoop_records hclass [] (Nat.lt_succ_self _)
  have hperm : ((loadConditions (saveConditions l)).map content).Perm (l.map storedContent) := by
    rw [hsave, loadConditions, hloaded, List.append_nil, ← hmap]
    exact (List.reverse_perm loaded).map content
  constructor
  · intro h c hc
    have hmem := (hperm.symm.trans h).symm.subset (List.mem_map_of_mem hc)
    obtain ⟨c', -, hc'⟩ := List.mem_map.mp hmem
    rw [← disableDefense_content, ← hc', disableDefense_storedContent]
  · intro h
    rw [List.map_congr_left fun c hc => storedContent_eq_content.mpr (h c hc)] at hperm
    exact hperm

/-- One condition of each class, two of them with the same type. -/
def everyClass : List Condition :=
  [{ conditionType := CONDITION_INFIGHT, id := CONDITIONID_DEFAULT, ticks := 60000,
      payload := .generic },
    { conditionType := CONDITION_ATTRIBUTES, id := CONDITIONID_COMBAT, ticks := 10000, subId := 2,
      isBuff := true, payload := .attributes { skills := .replicate 13 (-4) } },
    { conditionType := CONDITION_REGENERATION, id := CONDITIONID_DEFAULT, ticks := 4000,
      payload := .regeneration { healthGain := 5 } },
    { conditionType := CONDITION_FIRE, id := CONDITIONID_COMBAT, ticks := 18000,
      payload := .damage { damageList := [⟨9000, -10, 9000⟩, ⟨9000, -20, 9000⟩] } },
    { conditionType := CONDITION_FIRE, id := CONDITIONID_DEFAULT, ticks := 0,
      payload := .damage {} },
    { conditionType := CONDITION_HASTE, id := CONDITIONID_COMBAT, ticks := 33000,
      payload := .speed { speedDelta := 120 } },
    { conditionType := CONDITION_LIGHT, id := CONDITIONID_COMBAT, ticks := 370000,
      payload := .light { lightInfo := { level := 6, color := 215 } } }]

theorem loadConditions_everyClass :
    ((loadConditions (saveConditions everyClass)).map content).Perm (everyClass.map content) :=
  (loadConditions_perm_iff (by decide) (by decide)).mpr (by decide)

/-- The spell that makes a player fight without defence. -/
def withoutDefense : Condition :=
  { conditionType := CONDITION_ATTRIBUTES, id := CONDITIONID_COMBAT, ticks := 10000
    payload := .attributes { disableDefense := true } }

theorem withoutDefense_lost :
    (OfClass withoutDefense ∧ withoutDefense.isPersistent) ∧
      ¬ ((loadConditions (saveConditions [withoutDefense])).map content).Perm
        ([withoutDefense].map content) := by
  decide +kernel

end Condition
end OTServBR
