import Mathlib.Data.List.Induction
import OTServBR.Item.Equals

/-! # Attributes as a finite map

The entries of an attribute block and the bits of its types say the same thing
twice. After any sequence of operations there is one entry for each bit, and
what is read under a type is what was written there last.
-/

namespace OTServBR

namespace ItemAttributes

/-- The copy of an entry. A value is only copied where the type says what it is. -/
def copyAttribute (x : Attribute) : Attribute :=
  if x.type.isIntAttrType || x.type.isStrAttrType || x.type.isCustomAttrType then x
  else { x with value := .integer 0 }

def copy (a : ItemAttributes) : ItemAttributes :=
  { a with attributes := a.attributes.map copyAttribute }

inductive Op
  | setIntAttr (t : ItemAttrType) (value : Int64)
  | setStrAttr (t : ItemAttrType) (value : Str)
  | increaseIntAttr (t : ItemAttrType) (value : Int64)
  | removeAttribute (t : ItemAttrType)
  | copy
  deriving DecidableEq, Repr

/-- The type that an operation is about; a copy is about none. -/
def Op.type : Op → Option ItemAttrType
  | setIntAttr t _ | setStrAttr t _ | increaseIntAttr t _ | removeAttribute t => some t
  | copy => none

def apply (a : ItemAttributes) : Op → ItemAttributes
  | .setIntAttr t value => a.setIntAttr t value
  | .setStrAttr t value => a.setStrAttr t value
  | .increaseIntAttr t value => a.increaseIntAttr t value
  | .removeAttribute t => a.removeAttribute t
  | .copy => a.copy

def run (ops : List Op) : ItemAttributes := ops.foldl apply {}

/-! ### What has been written -/

/-- The attributes that hold numbers, without the imbuing slots. -/
def isNumber : ItemAttrType → Bool
  | .actionId | .uniqueId | .date | .weight | .attack | .defense | .extraDefense | .armor
  | .hitChance | .shootRange | .owner | .duration | .decayState | .corpseOwner | .charges
  | .fluidType | .doorId | .openContainer => true
  | _ => false

/-- The attributes that hold texts. -/
def isText : ItemAttrType → Bool
  | .description | .text | .writer | .name | .article | .pluralName | .special => true
  | _ => false

/-- The number under a type after one more operation. -/
def writeNumber (t : ItemAttrType) (old : Option Int64) : Op → Option Int64
  | .setIntAttr u value => if u = t then some value else old
  | .increaseIntAttr u value => if u = t then some (old.getD 0 + value) else old
  | .removeAttribute u => if u = t then none else old
  | _ => old

/-- The text under a type after one more operation. The empty text is not written. -/
def writeText (t : ItemAttrType) (old : Option Str) : Op → Option Str
  | .setStrAttr u value => if u = t ∧ value ≠ [] then some value else old
  | .removeAttribute u => if u = t then none else old
  | _ => old

/-- The number that a history leaves under a type. -/
def lastNumber (t : ItemAttrType) (ops : List Op) : Option Int64 := ops.foldl (writeNumber t) none

/-- The text that a history leaves under a type. -/
def lastText (t : ItemAttrType) (ops : List Op) : Option Str := ops.foldl (writeText t) none

variable {a : ItemAttributes} {t u : ItemAttrType} {f : AttributeValue → AttributeValue}

theorem isIntAttrType_of_isNumber (h : isNumber t = true) :
    t.isIntAttrType = true ∧ t.isStrAttrType = false := by
  revert h
  cases t <;> decide

theorem isStrAttrType_of_isText (h : isText t = true) :
    t.isStrAttrType = true ∧ t.isIntAttrType = false := by
  revert h
  cases t <;> decide

/-! ### One write -/

theorem find?_updateFirst (l : List Attribute) :
    (updateFirst t f l).find? (·.type == t) =
      (l.find? (·.type == t)).map fun x => { x with value := f x.value } := by
  induction l with
  | nil => rfl
  | cons x l ih =>
    unfold updateFirst
    by_cases hx : x.type = t
    · simp [hx]
    · rw [if_neg (by simpa using hx), List.find?_cons_of_neg (by simpa using hx),
        List.find?_cons_of_neg (by simpa using hx), ih]

/-- A write finds the value that is there, or a zero one. -/
theorem Coherent.getExistingAttr_modifyAttr (h : a.Coherent) :
    (a.modifyAttr t f).getExistingAttr t =
      some ⟨t, f ((a.getExistingAttr t).elim (.integer 0) (·.value))⟩ := by
  cases hold : a.getExistingAttr t with
  | none =>
    have hnone := h.getExistingAttr_eq_none.mp hold
    have hbit : t.mask &&& (a.attributeBits ||| t.mask) ≠ 0 := by
      rw [mask_and_or, UInt32.and_self]
      exact fun hzero => mask_ne_zero t (UInt32.or_eq_zero_iff.mp hzero).2
    unfold ItemAttributes.modifyAttr
    rw [hnone, Bool.false_and, if_neg Bool.false_ne_true, getExistingAttr,
      if_pos (by simpa [hasAttribute] using hbit)]
    simp
  | some x =>
    obtain ⟨hx, rfl⟩ := h.getExistingAttr_eq_some.mp hold
    have hhas : a.hasAttribute x.type = true := h.hasAttribute_iff.mpr ⟨x, hx, rfl⟩
    have hany : a.attributes.any (·.type == x.type) = true :=
      List.any_eq_true.mpr ⟨x, hx, beq_self_eq_true _⟩
    have hfind : a.attributes.find? (·.type == x.type) = some x := by
      rwa [getExistingAttr, if_pos hhas] at hold
    unfold ItemAttributes.modifyAttr
    rw [hhas, hany, Bool.true_and, if_pos rfl, getExistingAttr, if_pos (by exact hhas),
      find?_updateFirst, hfind]
    rfl

/-! ### Histories -/

/-- The value of every entry is copied. -/
def Copied (x : Attribute) : Prop :=
  (x.type.isIntAttrType || x.type.isStrAttrType || x.type.isCustomAttrType) = true

/-- What holds of a block between two operations. -/
structure Kept (a : ItemAttributes) : Prop where
  coherent : a.Coherent
  copied : ∀ x ∈ a.attributes, Copied x

theorem kept_empty : Kept {} := ⟨coherent_empty, by simp⟩

theorem mem_of_mem_updateFirst {l : List Attribute} {x : Attribute} (hx : x ∈ updateFirst t f l) :
    ∃ y ∈ l, x.type = y.type := by
  have htype : x.type ∈ l.map (·.type) := by
    rw [← map_type_updateFirst]
    exact List.mem_map_of_mem hx
  obtain ⟨y, hy, heq⟩ := List.mem_map.mp htype
  exact ⟨y, hy, heq.symm⟩

namespace Kept

variable (h : Kept a)

include h

theorem copy_eq : a.copy = a := by
  have hsame : a.attributes.map copyAttribute = a.attributes :=
    (List.map_congr_left fun x hx => if_pos (h.copied x hx)).trans (List.map_id _)
  rw [copy, hsame]

theorem modifyAttr (ht : (t.isIntAttrType || t.isStrAttrType || t.isCustomAttrType) = true) :
    Kept (a.modifyAttr t f) := by
  refine ⟨h.coherent.modifyAttr, fun x hx => ?_⟩
  unfold ItemAttributes.modifyAttr at hx
  split_ifs at hx
  · obtain ⟨y, hy, htype⟩ := mem_of_mem_updateFirst hx
    have hcopied := h.copied y hy
    rwa [Copied, ← htype] at hcopied
  · rcases List.mem_cons.mp hx with rfl | hx
    · exact ht
    · exact h.copied x hx

theorem removeAttribute : Kept (a.removeAttribute t) := by
  refine ⟨h.coherent.removeAttribute, fun x hx => ?_⟩
  unfold ItemAttributes.removeAttribute at hx
  split_ifs at hx
  · exact h.copied x hx
  · exact h.copied x (List.mem_of_mem_eraseP hx)

theorem apply (op : Op) : Kept (a.apply op) := by
  cases op with
  | setIntAttr t value =>
    rw [ItemAttributes.apply, setIntAttr]
    split_ifs with ht
    · exact h
    · exact h.modifyAttr (by simp_all)
  | setStrAttr t value =>
    rw [ItemAttributes.apply, setStrAttr]
    split_ifs with ht
    · exact h
    · exact h
    · exact h.modifyAttr (by simp_all)
  | increaseIntAttr t value =>
    rw [ItemAttributes.apply, increaseIntAttr]
    split_ifs with ht
    · exact h
    · exact h.modifyAttr (by simp_all)
  | removeAttribute t => exact h.removeAttribute
  | copy =>
    rw [ItemAttributes.apply, h.copy_eq]
    exact h

/-- An operation leaves the other types alone. -/
theorem getExistingAttr_apply_of_ne {op : Op} (hne : op.type ≠ some u) :
    (a.apply op).getExistingAttr u = a.getExistingAttr u := by
  have hother : ∀ {t}, op.type = some t → t ≠ u := fun ht heq => hne (heq ▸ ht)
  cases op with
  | setIntAttr t value =>
    rw [ItemAttributes.apply, setIntAttr]
    split_ifs
    · rfl
    · exact getExistingAttr_modifyAttr_of_ne (hother rfl) (ItemAttrType.mask_and_mask (hother rfl))
  | setStrAttr t value =>
    rw [ItemAttributes.apply, setStrAttr]
    split_ifs
    · rfl
    · rfl
    · exact getExistingAttr_modifyAttr_of_ne (hother rfl) (ItemAttrType.mask_and_mask (hother rfl))
  | increaseIntAttr t value =>
    rw [ItemAttributes.apply, increaseIntAttr]
    split_ifs
    · rfl
    · exact getExistingAttr_modifyAttr_of_ne (hother rfl) (ItemAttrType.mask_and_mask (hother rfl))
  | removeAttribute t => exact getExistingAttr_removeAttribute_of_ne (hother rfl)
  | copy => rw [ItemAttributes.apply, h.copy_eq]

/-- The entries are counted by the bits. -/
theorem countP_eq : a.attributes.countP (·.type == t) = if a.hasAttribute t then 1 else 0 := by
  have hcount : a.attributes.countP (·.type == t) = (a.attributes.map (·.type)).count t := by
    rw [List.count, List.countP_map]
    rfl
  rw [hcount, List.Nodup.count h.coherent.nodup]
  refine if_congr ?_ rfl rfl
  rw [h.coherent.hasAttribute_iff, List.mem_map]

theorem hasAttribute_eq : a.hasAttribute t = (a.getExistingAttr t).isSome := by
  cases hget : a.getExistingAttr t with
  | none => exact h.coherent.getExistingAttr_eq_none.mp hget
  | some x => exact h.coherent.hasAttribute_iff.mpr ⟨x, h.coherent.getExistingAttr_eq_some.mp hget⟩

/-- The entries of a type are the one that is found. -/
theorem filter_eq : a.attributes.filter (·.type == t) = (a.getExistingAttr t).toList := by
  have hlength := h.countP_eq (t := t)
  rw [h.hasAttribute_eq, List.countP_eq_length_filter] at hlength
  cases hget : a.getExistingAttr t with
  | none =>
    rw [hget] at hlength
    exact List.eq_nil_of_length_eq_zero hlength
  | some x =>
    rw [hget] at hlength
    obtain ⟨y, hy⟩ := List.length_eq_one_iff.mp hlength
    obtain ⟨hx, htype⟩ := h.coherent.getExistingAttr_eq_some.mp hget
    have hmem : x ∈ a.attributes.filter (·.type == t) :=
      List.mem_filter.mpr ⟨hx, beq_iff_eq.mpr htype⟩
    rw [hy, List.mem_singleton] at hmem
    rw [hy, hmem]
    rfl

end Kept

theorem run_append (ops : List Op) (op : Op) : run (ops ++ [op]) = (run ops).apply op := by
  rw [run, List.foldl_append]
  rfl

theorem kept_run (ops : List Op) : Kept (run ops) := by
  induction ops using List.reverseRecOn with
  | nil => exact kept_empty
  | append_singleton ops op ih =>
    rw [run_append]
    exact ih.apply op

/-! ### What is read -/

theorem writeNumber_of_ne {op : Op} {old : Option Int64} (hne : op.type ≠ some t) :
    writeNumber t old op = old := by
  cases op <;> simp_all [writeNumber, Op.type]

theorem writeText_of_ne {op : Op} {old : Option Str} (hne : op.type ≠ some t) :
    writeText t old op = old := by
  cases op <;> simp_all [writeText, Op.type]

/-- The entry of a number is the number written last. -/
theorem getExistingAttr_run_number (ht : isNumber t = true) (ops : List Op) :
    (run ops).getExistingAttr t = (lastNumber t ops).map fun n => ⟨t, .integer n⟩ := by
  obtain ⟨hint, hstr⟩ := isIntAttrType_of_isNumber ht
  induction ops using List.reverseRecOn with
  | nil => simp [run, lastNumber, getExistingAttr, hasAttribute]
  | append_singleton ops op ih =>
    have h := kept_run ops
    rw [run_append, lastNumber, List.foldl_append, List.foldl_cons, List.foldl_nil]
    change _ = (writeNumber t (lastNumber t ops) op).map _
    by_cases hop : op.type = some t
    · cases op with
      | setIntAttr u value =>
        obtain rfl : u = t := Option.some.inj hop
        rw [apply, setIntAttr, hint, Bool.not_true, if_neg Bool.false_ne_true,
          h.coherent.getExistingAttr_modifyAttr, writeNumber, if_pos rfl, Option.map_some]
      | setStrAttr u value =>
        obtain rfl : u = t := Option.some.inj hop
        rw [apply, setStrAttr, hstr, Bool.not_false, if_pos rfl, ih]
        rfl
      | increaseIntAttr u value =>
        obtain rfl : u = t := Option.some.inj hop
        rw [apply, increaseIntAttr, hint, Bool.not_true, if_neg Bool.false_ne_true,
          h.coherent.getExistingAttr_modifyAttr, ih, writeNumber, if_pos rfl]
        cases lastNumber u ops with
        | none => simp
        | some n => rfl
      | removeAttribute u =>
        obtain rfl : u = t := Option.some.inj hop
        rw [apply, getExistingAttr_removeAttribute_self, writeNumber, if_pos rfl, Option.map_none]
      | copy => cases hop
    · rw [h.getExistingAttr_apply_of_ne hop, ih, writeNumber_of_ne hop]

/-- The entry of a text is the text written last. -/
theorem getExistingAttr_run_text (ht : isText t = true) (ops : List Op) :
    (run ops).getExistingAttr t = (lastText t ops).map fun v => ⟨t, .string v⟩ := by
  obtain ⟨hstr, hint⟩ := isStrAttrType_of_isText ht
  induction ops using List.reverseRecOn with
  | nil => simp [run, lastText, getExistingAttr, hasAttribute]
  | append_singleton ops op ih =>
    have h := kept_run ops
    rw [run_append, lastText, List.foldl_append, List.foldl_cons, List.foldl_nil]
    change _ = (writeText t (lastText t ops) op).map _
    by_cases hop : op.type = some t
    · cases op with
      | setIntAttr u value =>
        obtain rfl : u = t := Option.some.inj hop
        rw [apply, setIntAttr, hint, Bool.not_false, if_pos rfl, ih]
        rfl
      | setStrAttr u value =>
        obtain rfl : u = t := Option.some.inj hop
        rw [apply, setStrAttr, hstr, Bool.not_true, if_neg Bool.false_ne_true, writeText]
        by_cases hvalue : value = []
        · rw [if_pos (by simpa using hvalue), if_neg (by simp [hvalue]), ih]
        · rw [if_neg (by simpa using hvalue), if_pos ⟨rfl, hvalue⟩,
            h.coherent.getExistingAttr_modifyAttr, Option.map_some]
      | increaseIntAttr u value =>
        obtain rfl : u = t := Option.some.inj hop
        rw [apply, increaseIntAttr, hint, Bool.not_false, if_pos rfl, ih]
        rfl
      | removeAttribute u =>
        obtain rfl : u = t := Option.some.inj hop
        rw [apply, getExistingAttr_removeAttribute_self, writeText, if_pos rfl, Option.map_none]
      | copy => cases hop
    · rw [h.getExistingAttr_apply_of_ne hop, ih, writeText_of_ne hop]

theorem getIntAttr_congr {b : ItemAttributes} (h : a.getExistingAttr t = b.getExistingAttr t) :
    a.getIntAttr t = b.getIntAttr t := by
  rw [getIntAttr, getIntAttr, h]

theorem getStrAttr_congr {b : ItemAttributes} (h : a.getExistingAttr t = b.getExistingAttr t) :
    a.getStrAttr t = b.getStrAttr t := by
  rw [getStrAttr, getStrAttr, h]

/-- After any sequence of operations every bit stands for exactly one entry of its type, numbers
and texts read are those written last, and an operation on one type changes no other. -/
theorem attributes_map (ops : List Op) :
    let a := run ops
    (∀ t, a.attributes.countP (·.type == t) = if a.hasAttribute t then 1 else 0) ∧
    (∀ t, isNumber t = true → a.getIntAttr t = (lastNumber t ops).getD 0) ∧
    (∀ t, isText t = true → a.getStrAttr t = (lastText t ops).getD []) ∧
    ∀ op u, op.type ≠ some u →
      (a.apply op).hasAttribute u = a.hasAttribute u ∧
      (a.apply op).attributes.filter (·.type == u) = a.attributes.filter (·.type == u) ∧
      (a.apply op).getIntAttr u = a.getIntAttr u ∧ (a.apply op).getStrAttr u = a.getStrAttr u := by
  intro a
  have h := kept_run ops
  refine ⟨fun t => h.countP_eq, fun t ht => ?_, fun t ht => ?_, fun op u hne => ?_⟩
  · rw [getIntAttr, (isIntAttrType_of_isNumber ht).1, getExistingAttr_run_number ht]
    cases lastNumber t ops <;> rfl
  · rw [getStrAttr, (isStrAttrType_of_isText ht).1, getExistingAttr_run_text ht]
    cases lastText t ops <;> rfl
  · have hsame := h.getExistingAttr_apply_of_ne hne
    have h' := h.apply op
    refine ⟨?_, ?_, getIntAttr_congr hsame, getStrAttr_congr hsame⟩
    · rw [h'.hasAttribute_eq, h.hasAttribute_eq, hsame]
    · rw [h'.filter_eq, h.filter_eq, hsame]

/-- A text that is written may be another one than is read: the empty text is not stored. -/
theorem not_getStrAttr_last : ¬ ∀ (ops : List Op) (t : ItemAttrType) (value : Str),
    t.isStrAttrType = true → (run (ops ++ [.setStrAttr t value])).getStrAttr t = value := by
  intro h
  have hempty := h [.setStrAttr .text [97]] .text [] (by decide)
  revert hempty
  decide

end ItemAttributes

end OTServBR
