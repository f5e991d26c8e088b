import Mathlib.Data.List.Basic

/-! # Item attributes

The optional values an item carries, kept as a list in order of creation
together with a word that has one bit for every type present. Numbers are
signed 64-bit words, texts are byte strings, and one attribute holds the map
of custom values that scripts set.
-/

namespace OTServBR

/-- The bytes of a `std::string`. -/
abbrev Str := List UInt8

/-- `toLowerCaseString` in the C locale. -/
def asLowerCaseString (s : Str) : Str :=
  s.map fun c => if 65 ≤ c && c ≤ 90 then c + 32 else c

inductive ItemAttrType
  | actionId | uniqueId | description | text | date | writer | name | article | pluralName
  | weight | attack | defense | extraDefense | armor | hitChance | shootRange | owner
  | duration | decayState | corpseOwner | charges | fluidType | doorId | special
  | imbuingSlots | openContainer | custom
  deriving DecidableEq, Repr

namespace ItemAttrType

def mask : ItemAttrType → UInt32
  | actionId => 0x1
  | uniqueId => 0x2
  | description => 0x4
  | text => 0x8
  | date => 0x10
  | writer => 0x20
  | name => 0x40
  | article => 0x80
  | pluralName => 0x100
  | weight => 0x200
  | attack => 0x400
  | defense => 0x800
  | extraDefense => 0x1000
  | armor => 0x2000
  | hitChance => 0x4000
  | shootRange => 0x8000
  | owner => 0x10000
  | duration => 0x20000
  | decayState => 0x40000
  | corpseOwner => 0x80000
  | charges => 0x100000
  | fluidType => 0x200000
  | doorId => 0x400000
  | special => 0x800000
  | imbuingSlots => 0x1000000
  | openContainer => 0x2000000
  | custom => 0x80000000

def isIntAttrType (t : ItemAttrType) : Bool := t.mask &&& 0x27FFE13 != 0
def isStrAttrType (t : ItemAttrType) : Bool := t.mask &&& 0x8001EC != 0
def isCustomAttrType (t : ItemAttrType) : Bool := t.mask &&& 0x80000000 != 0

def all : List ItemAttrType :=
  [actionId, uniqueId, description, text, date, writer, name, article, pluralName, weight, attack,
    defense, extraDefense, armor, hitChance, shootRange, owner, duration, decayState, corpseOwner,
    charges, fluidType, doorId, special, imbuingSlots, openContainer, custom]

theorem mem_all (t : ItemAttrType) : t ∈ all := by
  cases t <;> decide

/-- Every type has a bit of its own. -/
theorem mask_and_mask {t u : ItemAttrType} (h : t ≠ u) : t.mask &&& u.mask = 0 := by
  have hall : ∀ t ∈ all, ∀ u ∈ all, t ≠ u → t.mask &&& u.mask = 0 := by decide +kernel
  exact hall t (mem_all t) u (mem_all u) h

end ItemAttrType

inductive ItemDecayState | decayingFalse | decayingTrue | decayingPending
  deriving DecidableEq, Repr

namespace ItemDecayState

def toUInt8 : ItemDecayState → UInt8
  | decayingFalse => 0
  | decayingTrue => 1
  | decayingPending => 2

def toInt32 (s : ItemDecayState) : Int32 := s.toUInt8.toUInt32.toInt32

end ItemDecayState

/-- The value of a custom attribute; a double is kept as its 64 bits. -/
inductive CustomAttribute
  | blank
  | string (v : Str)
  | integer (v : Int64)
  | double (bits : UInt64)
  | bool (v : Bool)
  deriving DecidableEq, Repr

/-- The custom attributes in the iteration order of their hash map. -/
abbrev CustomAttributeMap := List (Str × CustomAttribute)

inductive AttributeValue
  | integer (v : Int64)
  | string (v : Str)
  | custom (m : CustomAttributeMap)
  deriving DecidableEq, Repr

structure Attribute where
  type : ItemAttrType
  value : AttributeValue
  deriving DecidableEq, Repr

structure ItemAttributes where
  attributes : List Attribute := []
  attributeBits : UInt32 := 0
  deriving DecidableEq, Repr

namespace ItemAttributes

def hasAttribute (a : ItemAttributes) (t : ItemAttrType) : Bool :=
  t.mask &&& a.attributeBits != 0

def getExistingAttr (a : ItemAttributes) (t : ItemAttrType) : Option Attribute :=
  if a.hasAttribute t then a.attributes.find? (·.type == t) else none

/-- Replace the value of the first entry of a type. -/
def updateFirst (t : ItemAttrType) (f : AttributeValue → AttributeValue) :
    List Attribute → List Attribute
  | [] => []
  | x :: xs =>
    if x.type == t then { x with value := f x.value } :: xs else x :: updateFirst t f xs

/-- Write through the reference that `getAttr` returns: the entry found, or a new zero one in front. -/
def modifyAttr (a : ItemAttributes) (t : ItemAttrType) (f : AttributeValue → AttributeValue) :
    ItemAttributes :=
  if a.hasAttribute t && a.attributes.any (·.type == t) then
    { a with attributes := updateFirst t f a.attributes }
  else
    { attributes := ⟨t, f (.integer 0)⟩ :: a.attributes
      attributeBits := a.attributeBits ||| t.mask }

def getStrAttr (a : ItemAttributes) (t : ItemAttrType) : Str :=
  if !t.isStrAttrType then [] else
    match a.getExistingAttr t with
    | some ⟨_, .string s⟩ => s
    | _ => []

def setStrAttr (a : ItemAttributes) (t : ItemAttrType) (v : Str) : ItemAttributes :=
  if !t.isStrAttrType then a
  else if v.isEmpty then a
  else a.modifyAttr t fun _ => .string v

def getIntAttr (a : ItemAttributes) (t : ItemAttrType) : Int64 :=
  if !t.isIntAttrType then 0 else
    match a.getExistingAttr t with
    | some ⟨_, .integer n⟩ => n
    | _ => 0

def setIntAttr (a : ItemAttributes) (t : ItemAttrType) (v : Int64) : ItemAttributes :=
  if !t.isIntAttrType then a else a.modifyAttr t fun _ => .integer v

def removeAttribute (a : ItemAttributes) (t : ItemAttrType) : ItemAttributes :=
  if !a.hasAttribute t then a else
    { attributes := a.attributes.eraseP (·.type == t)
      attributeBits := a.attributeBits &&& ~~~ t.mask }

def getCustomAttributeMap (a : ItemAttributes) : CustomAttributeMap :=
  match a.getExistingAttr .custom with
  | some ⟨_, .custom m⟩ => m
  | _ => []

/-- A key set again moves to the end: the old entry is erased before the new one goes in. -/
def setCustomAttribute (a : ItemAttributes) (key : Str) (v : CustomAttribute) : ItemAttributes :=
  let key := asLowerCaseString key
  let kept := a.getCustomAttributeMap.filter (·.1 != key)
  a.modifyAttr .custom fun _ => .custom (kept ++ [(key, v)])

/-- Nothing is created for a key to be removed. -/
def removeCustomAttribute (a : ItemAttributes) (key : Str) : ItemAttributes :=
  if !a.hasAttribute .custom then a else
    a.modifyAttr .custom fun _ =>
      .custom (a.getCustomAttributeMap.filter (·.1 != asLowerCaseString key))

def getCustomAttribute (a : ItemAttributes) (key : Str) : Option CustomAttribute :=
  a.getCustomAttributeMap.lookup (asLowerCaseString key)

def increaseIntAttr (a : ItemAttributes) (t : ItemAttrType) (v : Int64) : ItemAttributes :=
  if !t.isIntAttrType then a else
    a.modifyAttr t fun
      | .integer n => .integer (n + v)
      | _ => .integer v

/-! ## Writing one attribute and reading another -/

section Frame

variable {a : ItemAttributes} {t u : ItemAttrType} {f : AttributeValue → AttributeValue}

theorem mask_and_or (x y z : UInt32) : x &&& (y ||| z) = x &&& y ||| x &&& z :=
  UInt32.toBitVec_inj.mp BitVec.and_or_distrib_left

theorem find?_updateFirst_of_ne (h : t ≠ u) (l : List Attribute) :
    (updateFirst t f l).find? (·.type == u) = l.find? (·.type == u) := by
  induction l with
  | nil => rfl
  | cons x l ih =>
    unfold updateFirst
    by_cases hx : x.type = t
    · have hu : x.type ≠ u := hx ▸ h
      rw [if_pos (by simpa using hx), List.find?_cons_of_neg (by simpa using hu),
        List.find?_cons_of_neg (by simpa using hu)]
    · rw [if_neg (by simpa using hx), List.find?_cons, List.find?_cons, ih]

theorem find?_updateFirst_self {l : List Attribute} (h : l.any (·.type == t) = true) :
    ∃ x, (updateFirst t f l).find? (·.type == t) = some ⟨t, f x⟩ := by
  induction l with
  | nil => simp at h
  | cons x l ih =>
    unfold updateFirst
    by_cases hx : x.type = t
    · exact ⟨x.value, by simp [hx]⟩
    · obtain ⟨y, hy⟩ := ih (by simpa [hx] using h)
      refine ⟨y, ?_⟩
      rw [if_neg (by simpa using hx), List.find?_cons_of_neg (by simpa using hx), hy]

/-- The bit of a type does not see a type with another bit. -/
theorem hasAttribute_modifyAttr_of_ne (h : t.mask &&& u.mask = 0) :
    (a.modifyAttr t f).hasAttribute u = a.hasAttribute u := by
  have hand : u.mask &&& t.mask = 0 := by rw [UInt32.and_comm]; exact h
  unfold modifyAttr
  split
  · rfl
  · rw [hasAttribute, hasAttribute, mask_and_or, hand, UInt32.or_zero]

theorem getExistingAttr_modifyAttr_of_ne (hne : t ≠ u) (h : t.mask &&& u.mask = 0) :
    (a.modifyAttr t f).getExistingAttr u = a.getExistingAttr u := by
  have hfind : (a.modifyAttr t f).attributes.find? (·.type == u) =
      a.attributes.find? (·.type == u) := by
    unfold modifyAttr
    split
    · exact find?_updateFirst_of_ne hne _
    · exact List.find?_cons_of_neg (by simpa using hne)
  rw [getExistingAttr, getExistingAttr, hasAttribute_modifyAttr_of_ne h, hfind]

/-- An attribute written is found again. -/
theorem getExistingAttr_modifyAttr_self (x : AttributeValue) :
    (a.modifyAttr t fun _ => x).getExistingAttr t = some ⟨t, x⟩ := by
  have hmask : t.mask ≠ 0 := by cases t <;> decide
  unfold modifyAttr
  split
  · next hc =>
    obtain ⟨hb, hany⟩ := Bool.and_eq_true_iff.mp hc
    obtain ⟨y, hy⟩ := find?_updateFirst_self (f := fun _ => x) hany
    rw [getExistingAttr, if_pos (by exact hb)]
    exact hy
  · have hb : t.mask &&& (a.attributeBits ||| t.mask) ≠ 0 := by
      rw [mask_and_or, UInt32.and_self]
      intro h
      exact hmask (UInt32.or_eq_zero_iff.mp h).2
    rw [getExistingAttr, if_pos (by simpa [hasAttribute] using hb)]
    simp

theorem mask_and_not {x y : UInt32} (h : y &&& x = 0) (z : UInt32) :
    x &&& (z &&& ~~~ y) = x &&& z := by
  have hx : x &&& ~~~ y = x := by
    have hor : x &&& (y ||| ~~~ y) = x &&& y ||| x &&& ~~~ y := mask_and_or _ _ _
    rw [UInt32.and_comm x y, h, UInt32.zero_or] at hor
    rw [← hor]
    simp
  rw [UInt32.and_comm z, ← UInt32.and_assoc, hx]

theorem getExistingAttr_removeAttribute_of_ne (hne : t ≠ u) :
    (a.removeAttribute t).getExistingAttr u = a.getExistingAttr u := by
  unfold removeAttribute
  split
  · rfl
  · have hfind : (a.attributes.eraseP (·.type == t)).find? (·.type == u) =
        a.attributes.find? (·.type == u) := by
      induction a.attributes with
      | nil => rfl
      | cons x l ih =>
        by_cases hx : x.type = t
        · have hu : x.type ≠ u := hx ▸ hne
          rw [List.eraseP_cons_of_pos (by simpa using hx),
            List.find?_cons_of_neg (by simpa using hu)]
        · rw [List.eraseP_cons_of_neg (by simpa using hx), List.find?_cons, List.find?_cons, ih]
    have hbit : ∀ l, hasAttribute ⟨l, a.attributeBits &&& ~~~ t.mask⟩ u = a.hasAttribute u := by
      intro l
      rw [hasAttribute, hasAttribute, mask_and_not (ItemAttrType.mask_and_mask hne)]
    rw [getExistingAttr, getExistingAttr, hbit, hfind]

theorem getExistingAttr_removeAttribute_self : (a.removeAttribute t).getExistingAttr t = none := by
  unfold removeAttribute
  split
  · next h => rw [getExistingAttr, if_neg (by simpa using h)]
  · have hb : t.mask &&& (a.attributeBits &&& ~~~ t.mask) = 0 := by
      rw [UInt32.and_comm a.attributeBits, ← UInt32.and_assoc]
      simp
    rw [getExistingAttr, if_neg (by simp [hasAttribute, hb])]

end Frame

end ItemAttributes

end OTServBR
