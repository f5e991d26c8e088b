import OTServBR.Item.Basic
import OTServBR.Persistence.PropStream

/-! # The attribute stream of an item

`serializeAttr` writes the attributes an item has, each as a code byte and a
payload; `unserializeAttr` reads codes until a zero byte. The classes of items
override single codes. What the server knows beside the item (names of players,
the table of unique ids) is a parameter.
-/

namespace OTServBR

/-- The codes of stored attributes. -/
inductive AttrTypes
  | tileFlags | actionId | uniqueId | text | desc | teleDest | item | depotId | runeCharges
  | houseDoorId | count | duration | decayingState | writtenDate | writtenBy | sleeperGuid
  | sleepStart | charges | containerItems | name | article | pluralName | weight | attack
  | defense | extraDefense | armor | hitChance | shootRange | special | imbuingSlots
  | openContainer | customAttributes
  deriving DecidableEq, Repr

namespace AttrTypes

def toUInt8 : AttrTypes → UInt8
  | tileFlags => 3 | actionId => 4 | uniqueId => 5 | text => 6 | desc => 7 | teleDest => 8
  | item => 9 | depotId => 10 | runeCharges => 12 | houseDoorId => 14 | count => 15
  | duration => 16 | decayingState => 17 | writtenDate => 18 | writtenBy => 19
  | sleeperGuid => 20 | sleepStart => 21 | charges => 22 | containerItems => 23 | name => 24
  | article => 25 | pluralName => 26 | weight => 27 | attack => 28 | defense => 29
  | extraDefense => 30 | armor => 31 | hitChance => 32 | shootRange => 33 | special => 34
  | imbuingSlots => 35 | openContainer => 36 | customAttributes => 37

def all : List AttrTypes :=
  [tileFlags, actionId, uniqueId, text, desc, teleDest, item, depotId, runeCharges, houseDoorId,
    count, duration, decayingState, writtenDate, writtenBy, sleeperGuid, sleepStart, charges,
    containerItems, name, article, pluralName, weight, attack, defense, extraDefense, armor,
    hitChance, shootRange, special, imbuingSlots, openContainer, customAttributes]

def ofUInt8 (b : UInt8) : Option AttrTypes := all.find? (·.toUInt8 == b)

@[simp] theorem ofUInt8_toUInt8 (a : AttrTypes) : ofUInt8 a.toUInt8 = some a := by
  cases a <;> rfl

@[simp] theorem toUInt8_ne_zero (a : AttrTypes) : a.toUInt8 ≠ 0 := by
  cases a <;> decide

end AttrTypes

/-- What reading attributes asks of the rest of the server. -/
structure AttrEnv where
  getNameByGuid : UInt32 → Str
  addUniqueItem : UInt16 → Bool

/-- `Attr_ReadValue` with the state after the read. -/
inductive AttrRead
  | continue (i : Item) (s : Str)
  | error (i : Item) (s : Str)
  | finish (i : Item) (serializationCount : ℕ) (s : Str)

def AttrRead.item : AttrRead → Item
  | «continue» i _ | error i _ | finish i _ _ => i

namespace CustomAttribute

open PropWriteStream PropStream

/-- The position of the alternative in the variant. -/
def which : CustomAttribute → ℕ
  | blank => 0
  | string _ => 1
  | integer _ => 2
  | double _ => 3
  | bool _ => 4

def payload : CustomAttribute → Str
  | blank => []
  | string v => writeString v
  | integer v => write 8 v.toUInt64.toNat
  | double bits => write 8 bits.toNat
  | bool v => write 1 v.toNat

def serialize (c : CustomAttribute) : Str := write 1 c.which ++ c.payload

/-- Read a number into an alternative. -/
def readNum (size : ℕ) (f : ℕ → CustomAttribute) (s : Str) : Result CustomAttribute :=
  match read size s with
  | .error s => .error s
  | .ok (v, s) => .ok (f v, s)

def unserialize (s : Str) : Result CustomAttribute :=
  match read 1 s with
  | .error s => .error s
  | .ok (pos, s) =>
    match pos with
    | 1 =>
      match readString s with
      | .error s => .error s
      | .ok (tmp, s) => .ok (.string tmp, s)
    | 2 => readNum 8 (fun v => .integer (UInt64.ofNat v).toInt64) s
    | 3 => readNum 8 (fun v => .double (UInt64.ofNat v)) s
    | 4 => readNum 1 (fun v => .bool (v != 0)) s
    | _ => .error s

end CustomAttribute

namespace Item

open PropWriteStream PropStream

variable (env : AttrEnv) (types : Items)

/-- Read a number and pass it to a setter. -/
def readNum (size : ℕ) (i : Item) (s : Str) (set : ℕ → Item) : AttrRead :=
  match read size s with
  | .error s => .error i s
  | .ok (v, s) => .continue (set v) s

/-- Read a text and pass it to a setter. -/
def readStr (i : Item) (s : Str) (set : Str → Item) : AttrRead :=
  match readString s with
  | .error s => .error i s
  | .ok (v, s) => .continue (set v) s

/-- Read a 32-bit number into an integer attribute. -/
def readInt32 (i : Item) (s : Str) (t : ItemAttrType) : AttrRead :=
  readNum 4 i s fun v => i.setIntAttr t (UInt32.ofNat v).toInt32

def skipBytes (n : ℕ) (i : Item) (s : Str) : AttrRead :=
  match skip n s with
  | .error s => .error i s
  | .ok (_, s) => .continue i s

/-- The loop over the entries of a custom attribute map. -/
def readCustom : ℕ → Item → Str → AttrRead
  | 0, i, s => .continue i s
  | n + 1, i, s =>
    match readString s with
    | .error s => .error i s
    | .ok (key, s) =>
      match CustomAttribute.unserialize s with
      | .error s => .error i s
      | .ok (v, s) => readCustom n (i.setCustomAttribute key v) s

def setUniqueId (i : Item) (n : UInt16) : Item :=
  if i.hasAttribute .uniqueId then i
  else if env.addUniqueItem n then i.setIntAttr .uniqueId n.toUInt32.toInt32
  else i

/-- `Item::readAttr`, the codes every class understands. -/
def baseReadAttr (i : Item) (attr : AttrTypes) (s : Str) : AttrRead :=
  match attr with
  | .count | .runeCharges => readNum 1 i s fun charges => i.setSubType types (UInt16.ofNat charges)
  | .actionId => readNum 2 i s fun actionId => i.setActionId (UInt16.ofNat actionId)
  | .uniqueId => readNum 2 i s fun uniqueId => i.setUniqueId env (UInt16.ofNat uniqueId)
  | .text => readStr i s (i.setStrAttr .text)
  | .writtenDate => readInt32 i s .date
  | .writtenBy => readStr i s (i.setStrAttr .writer)
  | .desc => readStr i s (i.setStrAttr .description)
  | .charges => readNum 2 i s fun charges => i.setSubType types (UInt16.ofNat charges)
  | .duration => readNum 4 i s fun duration => i.setDuration (max 0 (UInt32.ofNat duration).toInt32)
  | .decayingState =>
    readNum 1 i s fun state => if state != 0 then i.setDecaying .decayingPending else i
  | .name => readStr i s (i.setStrAttr .name)
  | .article => readStr i s (i.setStrAttr .article)
  | .pluralName => readStr i s (i.setStrAttr .pluralName)
  | .weight => readInt32 i s .weight
  | .attack => readInt32 i s .attack
  | .defense => readInt32 i s .defense
  | .extraDefense => readInt32 i s .extraDefense
  | .imbuingSlots => readInt32 i s .imbuingSlots
  | .openContainer => readInt32 i s .openContainer
  | .armor => readInt32 i s .armor
  | .hitChance => readNum 1 i s fun v => i.setIntAttr .hitChance (UInt8.ofNat v).toInt8.toInt32
  | .shootRange => readNum 1 i s fun v => i.setIntAttr .shootRange (UInt8.ofNat v).toUInt32.toInt32
  | .special => readStr i s (i.setStrAttr .special)
  -- codes of the derived classes, skipped where the class has changed since the save
  | .depotId => skipBytes 2 i s
  | .houseDoorId => skipBytes 1 i s
  | .sleeperGuid => skipBytes 4 i s
  | .sleepStart => skipBytes 4 i s
  | .teleDest => skipBytes 5 i s
  | .containerItems => .error i s
  | .customAttributes =>
    match read 8 s with
    | .error s => .error i s
    | .ok (size, s) => readCustom size i s
  | .tileFlags | .item => .error i s

/-- `Container::readAttr` of the count that the children follow. -/
def readContainerItems (i : Item) (s : Str) : AttrRead :=
  match read 4 s with
  | .error s => .error i s
  | .ok (n, s) => .finish i n s

def readTeleDest (i : Item) (s : Str) : AttrRead :=
  match read 2 s with
  | .error s => .error i s
  | .ok (x, s) =>
    match read 2 s with
    | .error s => .error { i with destPos := { i.destPos with x := UInt16.ofNat x } } s
    | .ok (y, s) =>
      let destPos := { i.destPos with x := UInt16.ofNat x, y := UInt16.ofNat y }
      readNum 1 { i with destPos := destPos } s fun z =>
        { i with destPos := { destPos with z := UInt8.ofNat z } }

/-- A sleeper whose name is unknown is forgotten. -/
def setSleeper (i : Item) (guid : UInt32) : Item :=
  let name := env.getNameByGuid guid
  if guid == 0 || name.isEmpty then i
  else { i.setStrAttr .description (name ++ " is sleeping there.".toUTF8.toList) with
    sleeperGUID := guid }

/-- The virtual `readAttr`. `DepotLocker` overrides it without the case of `Container`. -/
def readAttr (i : Item) (attr : AttrTypes) (s : Str) : AttrRead :=
  match i.cls, attr with
  | .container, .containerItems | .rewardChest, .containerItems | .depotChest, .containerItems
  | .inbox, .containerItems | .reward, .containerItems => readContainerItems i s
  | .depotLocker, .depotId => readNum 2 i s fun v => { i with depotId := UInt16.ofNat v }
  | .teleport, .teleDest => readTeleDest i s
  | .door, .houseDoorId =>
    readNum 1 i s fun v => i.setIntAttr .doorId (UInt8.ofNat v).toUInt32.toInt32
  | .bed, .sleeperGuid => readNum 4 i s fun guid => i.setSleeper env (UInt32.ofNat guid)
  | .bed, .sleepStart => readNum 4 i s fun v => { i with sleepStart := UInt64.ofNat v }
  | _, _ => baseReadAttr env types i attr s

/-- The result of `unserializeAttr` with the count that `readAttr` left in a container. -/
structure Unserialized where
  ok : Bool
  item : Item
  serializationCount : ℕ := 0
  stream : Str

/-- The loop of `unserializeAttr`; every turn reads at least one byte of the stream. -/
def unserializeAttrLoop : ℕ → Item → Str → Unserialized
  | 0, i, s => ⟨true, i, 0, s⟩
  | fuel + 1, i, s =>
    match read 1 s with
    | .error s => ⟨true, i, 0, s⟩
    | .ok (b, s) =>
      if b == 0 then ⟨true, i, 0, s⟩ else
        match AttrTypes.ofUInt8 (UInt8.ofNat b) with
        | none => ⟨false, i, 0, s⟩
        | some attr =>
          match readAttr env types i attr s with
          | .continue i s => unserializeAttrLoop fuel i s
          | .error i s => ⟨false, i, 0, s⟩
          | .finish i n s => ⟨true, i, n, s⟩

def unserializeAttr (i : Item) (s : Str) : Unserialized :=
  unserializeAttrLoop env types (s.length + 1) i s

/-- One attribute of the stream, written under a condition. -/
def field (c : Bool) (attr : AttrTypes) (payload : Str) : Str :=
  if c then attr.toUInt8 :: payload else []

/-- An attribute written when present, as the 32-bit number it holds. -/
def intField (i : Item) (t : ItemAttrType) (attr : AttrTypes) (size : ℕ) : Str :=
  field (i.hasAttribute t) attr (write size (i.getIntAttr t).toUInt32.toNat)

/-- A text written when it is not empty. -/
def textField (i : Item) (t : ItemAttrType) (attr : AttrTypes) : Str :=
  field (!(i.getStrAttr t).isEmpty) attr (writeString (i.getStrAttr t))

/-- A text written when its attribute is present. -/
def strField (i : Item) (t : ItemAttrType) (attr : AttrTypes) : Str :=
  field (i.hasAttribute t) attr (writeString (i.getStrAttr t))

def serializeCustom (m : CustomAttributeMap) : Str :=
  m.flatMap fun e => writeString e.1 ++ e.2.serialize

/-- The fields of `Item::serializeAttr` before the date of writing. -/
def leadingFields (i : Item) : Str :=
  let it := i.getType types
  field (it.stackable || it.isFluidContainer || it.isSplash) .count
      (write 1 (i.getSubType types).toNat) ++
    (field (i.getCharges != 0) .charges (write 2 i.getCharges.toNat) ++
    (field (it.moveable && i.getActionId != 0) .actionId (write 2 i.getActionId.toNat) ++
    textField i .text .text))

def dateField (i : Item) : Str :=
  field (i.getIntAttr .date != 0) .writtenDate (write 4 (i.getIntAttr .date).toUInt32.toNat)

/-- The fields between the date of writing and the custom attributes. -/
def trailingFields (i : Item) : Str :=
  textField i .writer .writtenBy ++
    (textField i .description .desc ++
    (intField i .duration .duration 4 ++
    (field (i.getDecaying == ItemDecayState.decayingTrue.toUInt8 ||
        i.getDecaying == ItemDecayState.decayingPending.toUInt8)
      .decayingState (write 1 i.getDecaying.toNat) ++
    (strField i .name .name ++
    (strField i .article .article ++
    (strField i .pluralName .pluralName ++
    (intField i .weight .weight 4 ++
    (intField i .attack .attack 4 ++
    (intField i .defense .defense 4 ++
    (intField i .extraDefense .extraDefense 4 ++
    (intField i .imbuingSlots .imbuingSlots 4 ++
    (intField i .openContainer .openContainer 4 ++
    (intField i .armor .armor 4 ++
    (intField i .hitChance .hitChance 1 ++
    (intField i .shootRange .shootRange 1 ++
    strField i .special .special)))))))))))))))

/-- The last field of `Item::serializeAttr`. -/
def customField (i : Item) : Str :=
  field (i.hasAttribute .custom) .customAttributes
    (write 8 i.getAttributes.getCustomAttributeMap.length ++
      serializeCustom i.getAttributes.getCustomAttributeMap)

/-- `Item::serializeAttr`. -/
def baseSerializeAttr (i : Item) : Str :=
  i.leadingFields types ++ (i.dateField ++ (i.trailingFields ++ i.customField))

/-- The virtual `serializeAttr`. A door writes nothing, a bed only its sleeper. -/
def serializeAttr (i : Item) : Str :=
  match i.cls with
  | .teleport =>
    baseSerializeAttr types i ++ field true .teleDest
      (write 2 i.destPos.x.toNat ++ (write 2 i.destPos.y.toNat ++ write 1 i.destPos.z.toNat))
  | .door => []
  | .bed =>
    field (i.sleeperGUID != 0) .sleeperGuid (write 4 i.sleeperGUID.toNat) ++
      field (i.sleepStart != 0) .sleepStart (write 4 i.sleepStart.toNat)
  | _ => baseSerializeAttr types i

end Item

end OTServBR
