import OTServBR.Persistence.LoginData

/-! # The rewards of a player

A reward is a container that is known by the time of its creation, which it
carries as its date attribute. Rewards are saved under running parent ids and
found again by their date; two loops over the loaded map tell reward rows from
item rows by the range of the parent id.
-/

namespace OTServBR

open BreadthFirst PropWriteStream PropStream

/-! ## The date survives -/

namespace Item

/-- `ITEM_ATTRIBUTE_DATE` of an item. -/
def date (i : Item) : Int32 := i.getIntAttr .date

section Date

variable {env : AttrEnv} {types : Items}

theorem date_setIntAttr {i : Item} {t : ItemAttrType} (ht : t ≠ .date) (v : Int32) :
    (i.setIntAttr t v).date = i.date :=
  getIntAttr_setIntAttr_of_ne ht v

theorem date_setStrAttr {i : Item} {t : ItemAttrType} (ht : t ≠ .date) (v : Str) :
    (i.setStrAttr t v).date = i.date :=
  getIntAttr_setStrAttr_of_ne ht v

theorem date_setSubType {i : Item} (n : UInt16) : (i.setSubType types n).date = i.date := by
  unfold setSubType setFluidType setCharges
  dsimp only
  split_ifs
  · exact date_setIntAttr (by decide) _
  · rfl
  · exact date_setIntAttr (by decide) _
  · rfl

theorem date_setUniqueId {i : Item} (n : UInt16) : (i.setUniqueId env n).date = i.date := by
  unfold setUniqueId
  split_ifs
  · rfl
  · exact date_setIntAttr (by decide) _
  · rfl

theorem date_setSleeper {i : Item} (guid : UInt32) : (i.setSleeper env guid).date = i.date := by
  unfold setSleeper
  dsimp only
  split_ifs
  · rfl
  · exact date_setStrAttr (t := .description) (by decide) _

theorem date_readNum {size : ℕ} {i : Item} {s : Str} {set : ℕ → Item}
    (h : ∀ v, (set v).date = i.date) : (readNum size i s set).item.date = i.date := by
  unfold readNum
  split
  · rfl
  · exact h _

theorem date_readStr {i : Item} {s : Str} {set : Str → Item} (h : ∀ v, (set v).date = i.date) :
    (readStr i s set).item.date = i.date := by
  unfold readStr
  split
  · rfl
  · exact h _

theorem date_skipBytes {n : ℕ} {i : Item} {s : Str} : (skipBytes n i s).item.date = i.date := by
  unfold skipBytes
  split <;> rfl

theorem date_readCustom (n : ℕ) (i : Item) (s : Str) : (readCustom n i s).item.date = i.date := by
  induction n generalizing i s with
  | zero => rfl
  | succ n ih =>
    unfold readCustom
    split
    · rfl
    · split
      · rfl
      · exact (ih _ _).trans (getIntAttr_setCustomAttribute (by decide) _ _)

theorem date_readTeleDest (i : Item) (s : Str) : (readTeleDest i s).item.date = i.date := by
  unfold readTeleDest
  split
  · rfl
  · split
    · rfl
    · exact date_readNum fun _ => rfl

theorem date_baseReadAttr {attr : AttrTypes} (h : attr ≠ .writtenDate) (i : Item) (s : Str) :
    (baseReadAttr env types i attr s).item.date = i.date := by
  cases attr <;> unfold baseReadAttr <;> dsimp only
  case writtenDate => exact absurd rfl h
  case count | runeCharges | charges => exact date_readNum fun _ => date_setSubType _
  case uniqueId => exact date_readNum fun _ => date_setUniqueId _
  case actionId => exact date_readNum fun _ => date_setIntAttr (by decide) _
  case decayingState =>
    refine date_readNum fun v => ?_
    split_ifs
    · exact date_setIntAttr (by decide) _
    · rfl
  case text | writtenBy | desc | name | article | pluralName | special =>
    exact date_readStr fun _ => date_setStrAttr (by decide) _
  case depotId | houseDoorId | sleeperGuid | sleepStart | teleDest => exact date_skipBytes
  case containerItems | tileFlags | item => rfl
  case customAttributes =>
    split
    · rfl
    · exact date_readCustom _ _ _
  all_goals exact date_readNum fun _ => date_setIntAttr (by decide) _

/-- Only the date of writing changes the date. -/
theorem blind_date {attr : AttrTypes} (h : attr ≠ .writtenDate) :
    Blind env types date attr := by
  intro i s
  have hcont : (readContainerItems i s).item.date = i.date := by
    unfold readContainerItems
    split <;> rfl
  unfold readAttr
  split
  any_goals exact hcont
  · exact date_readNum fun _ => rfl
  · exact date_readTeleDest i s
  · exact date_readNum fun _ => date_setIntAttr (by decide) _
  · exact date_readNum fun _ => date_setSleeper _
  · exact date_readNum fun _ => rfl
  · exact date_baseReadAttr h i s

/-- The custom attributes at the end of a stream do not change the date, even if they fail. -/
theorem date_customField {i : Item}
    (hlen : i.getAttributes.getCustomAttributeMap.length < 256 ^ 8) (j : Item) :
    (unserializeAttr env types j i.customField).item.date = j.date := by
  have hnil : ∀ k : Item, (unserializeAttr env types k []).item = k := fun _ => rfl
  rw [customField]
  cases i.hasAttribute .custom with
  | false => rfl
  | true =>
    have hb : (readAttr env types j .customAttributes
        (write 8 i.getAttributes.getCustomAttributeMap.length ++
          serializeCustom i.getAttributes.getCustomAttributeMap)).item.date = j.date :=
      blind_date (by decide) _ _
    rw [field, if_pos rfl, unserializeAttr_cons]
    rw [readAttr_custom _ hlen] at hb ⊢
    by_cases hblank : ∃ e ∈ i.getAttributes.getCustomAttributeMap, e.2 = .blank
    · obtain ⟨k, s, hk⟩ := readCustom_blank hblank j []
      rw [List.append_nil] at hk
      rw [hk] at hb ⊢
      exact hb
    · obtain ⟨k, hk⟩ := readCustom_serializeCustom (fun e he h => hblank ⟨e, he, h⟩) j []
      rw [List.append_nil] at hk
      rw [hk] at hb ⊢
      dsimp only
      rw [hnil]
      exact hb

/-- An object without a date takes the date of the item that wrote the attributes. -/
theorem date_unserializeAttr {i c : Item}
    (hlen : i.getAttributes.getCustomAttributeMap.length < 256 ^ 8) (hc : c.date = 0) :
    (unserializeAttr env types c (i.baseSerializeAttr types)).item.date = i.date := by
  have hobs : ∀ attr, attr ≠ .writtenDate → Blind env types date attr := fun _ h => blind_date h
  obtain ⟨j, -, hj, ej⟩ := transparent_leadingFields hobs i c rfl
    (i.dateField ++ (i.trailingFields ++ i.customField))
  rw [baseSerializeAttr, ej]
  obtain ⟨k, hk, ek⟩ : ∃ k : Item, k.date = i.date ∧
      unserializeAttr env types j (i.dateField ++ (i.trailingFields ++ i.customField)) =
        unserializeAttr env types k (i.trailingFields ++ i.customField) := by
    by_cases h0 : i.date = 0
    · refine ⟨j, by rw [hj, hc, h0], ?_⟩
      have hfalse : (i.getIntAttr .date != 0) = false := by simpa [date] using h0
      rw [dateField, hfalse]
      rfl
    · have htrue : (i.getIntAttr .date != 0) = true := by simpa [date] using h0
      refine ⟨j.setIntAttr .date i.date, ?_, ?_⟩
      · exact getIntAttr_setIntAttr_self (by decide) _
      · have hv : (i.getIntAttr .date).toUInt32.toNat % 256 ^ 4 =
            (i.getIntAttr .date).toUInt32.toNat := Nat.mod_eq_of_lt (UInt32.toNat_lt _)
        rw [dateField, htrue, field, if_pos rfl, List.cons_append, unserializeAttr_cons,
          readAttr_base (by decide), baseReadAttr, readInt32, readNum_write, hv]
        dsimp only
        rw [UInt32.ofNat_toNat, Int32.toInt32_toUInt32, date]
  obtain ⟨m, -, hm, em⟩ := transparent_trailingFields hobs i k rfl i.customField
  rw [ek, em, date_customField hlen, hm, hk]

theorem date_construct (cls : ItemClass) (id n : UInt16) : (construct types cls id n).date = 0 := by
  have h0 : ∀ i : Item, i.attributes = none → i.date = 0 := by
    intro i hi
    rw [date, getIntAttr, hi]
  have hset : ∀ i : Item, (i.setDefaultDuration types).date = i.date := by
    intro i
    unfold setDefaultDuration
    dsimp only
    split_ifs
    · exact date_setIntAttr (by decide) _
    · rfl
  unfold construct
  dsimp only
  rw [hset]
  split_ifs
  · exact (date_setIntAttr (by decide) _).trans (h0 _ rfl)
  · exact h0 _ rfl
  · exact h0 _ rfl
  · exact h0 _ rfl
  · exact (date_setIntAttr (by decide) _).trans (h0 _ rfl)
  · exact (date_setIntAttr (by decide) _).trans (h0 _ rfl)
  · exact h0 _ rfl

theorem date_createItem {id n : UInt16} {c : Item} (h : createItem types id n = some c) :
    c.date = 0 := by
  obtain ⟨type, count', rfl⟩ := exists_construct_of_createItem h
  exact date_construct _ _ _

end Date

end Item

namespace LoginData

/-! ## The two sides -/

section Save

variable (types : Items) (openContainers : List (UInt8 × ℕ)) (now : ℤ)

/-- The rewards of the map that are stored: not empty and not older than seven days. -/
def storedRewards (rewardMap : List (UInt32 × RoseTree Object)) :
    List (UInt32 × RoseTree Object) :=
  rewardMap.filter fun e => !e.2.children.isEmpty && now - e.1.toNat ≤ 60 * 60 * 24 * 7

/-- The list for `saveItems`: the parent id is a running number from 1. -/
def rewardBlock (rewards : List (UInt32 × RoseTree Object)) : List (ℕ × RoseTree Object) :=
  (rewards.zipIdx 1).map fun e => (e.2, e.1.2)

def saveRewards (rewardMap : List (UInt32 × RoseTree Object)) : List (Row StoredItem) :=
  saveItems types openContainers (rewardBlock (storedRewards now rewardMap))

end Save

/-- The object that an entry of the loaded map points to. -/
inductive Ref
  | row (sid : ℕ)
  | reward (id : UInt32)
  deriving DecidableEq, Repr

/-- `Reward::Reward` with the date that `getReward` sets. -/
def newReward (id : UInt32) : Item :=
  ({ cls := .container, id := ItemId.rewardContainer } : Item).setIntAttr .date id.toInt32

/-- An entry of the map replaced by the reward of its date. -/
def rewardRow (r : Row Item) : Row (Ref × Item) :=
  ⟨r.pid, r.sid, .reward r.val.date.toUInt32, newReward r.val.date.toUInt32⟩

def plainRow (r : Row Item) : Row (Ref × Item) := ⟨r.pid, r.sid, .row r.sid, r.val⟩

/-- The first loop, which ends at the first row that does not look like a reward. -/
def findRewards : ItemMap → List (Row (Ref × Item))
  | [] => []
  | r :: itemMap =>
    if r.pid < 100 then rewardRow r :: findRewards itemMap
    else plainRow r :: itemMap.map plainRow

/-- The container under a row number of the map. -/
def parentRef (itemMap : List (Row (Ref × Item))) (pid : ℕ) : Option Ref :=
  match itemMap.find? (·.sid == pid) with
  | none => none
  | some it2 => if it2.val.2.cls.isContainer then some it2.val.1 else none

def pushFront (ref : Option Ref) (r : Row (Ref × Item))
    (contents : Ref → List (Row (Ref × Item))) : Ref → List (Row (Ref × Item)) :=
  match ref with
  | none => contents
  | some ref => Function.update contents ref (r :: contents ref)

@[simp] theorem pushFront_none (r : Row (Ref × Item)) (contents : Ref → List (Row (Ref × Item))) :
    pushFront none r contents = contents := rfl

@[simp] theorem pushFront_some (ref : Ref) (r : Row (Ref × Item))
    (contents : Ref → List (Row (Ref × Item))) :
    pushFront (some ref) r contents = Function.update contents ref (r :: contents ref) := rfl

/-- The second loop, over the map in reverse; it ends at the first row that looks like a reward. -/
def attachRewards (itemMap : List (Row (Ref × Item))) :
    List (Row (Ref × Item)) → (Ref → List (Row (Ref × Item))) → Ref → List (Row (Ref × Item))
  | [], contents => contents
  | r :: rest, contents =>
    if r.pid < 100 then contents
    else attachRewards itemMap rest (pushFront (parentRef itemMap r.pid) r contents)

/-- An object with its contents, down to a depth. -/
def treeOfRef (contents : Ref → List (Row (Ref × Item))) : ℕ → Row (Ref × Item) → ItemTree
  | 0, r => .node r.val.2 []
  | depth + 1, r => .node r.val.2 ((contents r.val.1).map (treeOfRef contents depth))

/-- The reward of a date after loading, with its items. -/
def loadRewards (env : AttrEnv) (types : Items) (result : List (Row StoredItem)) (id : UInt32) :
    Option (List ItemTree) :=
  let itemMap := findRewards (loadItems env types result)
  let contents := attachRewards itemMap itemMap.reverse fun _ => []
  if itemMap.any (·.val.1 == .reward id) then
    some ((contents (.reward id)).map (treeOfRef contents itemMap.length))
  else none

/-- A reward of the map: a container dated with its key, whose contents can be created again. -/
structure IsReward (types : Items) (e : UInt32 × RoseTree Object) : Prop where
  cls : e.2.label.item.cls = .container
  date : e.2.label.item.date = e.1.toInt32
  custom : e.2.label.item.getAttributes.getCustomAttributeMap.length < 256 ^ 8
  creatable : Creatable types e.2

/-! ## The loops -/

theorem findRewards_append {T C : ItemMap} (hT : ∀ r ∈ T, r.pid < 100)
    (hC : ∀ r ∈ C, 100 ≤ r.pid) :
    findRewards (T ++ C) = T.map rewardRow ++ C.map plainRow := by
  induction T with
  | nil =>
    cases C with
    | nil => rfl
    | cons r C =>
      have := hC r (by simp)
      simp only [List.nil_append, List.map_nil, findRewards, List.map_cons]
      rw [if_neg (by omega)]
  | cons r T ih =>
    rw [List.cons_append, findRewards, if_pos (hT r (by simp)),
      ih fun r hr => hT r (List.mem_cons_of_mem _ hr)]
    rfl

/-- Past the hundredth row no reward is found. -/
theorem mem_findRewards {m : ItemMap} {id : UInt32} {r : Row (Ref × Item)}
    (hr : r ∈ findRewards m) (hid : r.val.1 = .reward id) :
    ∃ s ∈ m, s.pid < 100 ∧ s.val.date.toUInt32 = id := by
  induction m with
  | nil => simp [findRewards] at hr
  | cons s m ih =>
    unfold findRewards at hr
    split at hr
    · next hs =>
      rcases List.mem_cons.mp hr with rfl | hr
      · exact ⟨s, by simp, hs, by simpa [rewardRow] using hid⟩
      · obtain ⟨t, ht, h⟩ := ih hr
        exact ⟨t, List.mem_cons_of_mem _ ht, h⟩
    · rw [← List.map_cons] at hr
      obtain ⟨t, -, rfl⟩ := List.mem_map.mp hr
      simp [plainRow] at hid

theorem attachRewards_append {m A B : List (Row (Ref × Item))} (hA : ∀ r ∈ A, 100 ≤ r.pid)
    (hB : ∀ r ∈ B, r.pid < 100) (contents : Ref → List (Row (Ref × Item))) :
    attachRewards m (A ++ B) contents =
      A.foldl (fun contents r => pushFront (parentRef m r.pid) r contents) contents := by
  induction A generalizing contents with
  | nil =>
    cases B with
    | nil => rfl
    | cons r B =>
      rw [List.nil_append, attachRewards, if_pos (hB r (by simp))]
      rfl
  | cons r A ih =>
    have := hA r (by simp)
    rw [List.cons_append, attachRewards, if_neg (by omega),
      ih fun r hr => hA r (List.mem_cons_of_mem _ hr)]
    rfl

/-- What has been pushed into an object. -/
theorem foldr_pushFront {key : Row (Ref × Item) → Option Ref} (l : List (Row (Ref × Item)))
    (ref : Ref) :
    l.foldr (fun r contents => pushFront (key r) r contents) (fun _ => []) ref =
      l.filter fun r => key r == some ref := by
  induction l with
  | nil => rfl
  | cons r l ih =>
    rw [List.foldr_cons, List.filter_cons]
    cases hk : key r with
    | none =>
      rw [pushFront_none, ih]
      rfl
    | some k =>
      rw [pushFront_some]
      by_cases h : k = ref
      · subst h
        rw [Function.update_self, ih, if_pos (by simp)]
      · rw [Function.update_of_ne (Ne.symm h), ih, if_neg (by simpa using h)]

/-! ## A map of few rewards -/

/-- The entry of a row after the first loop, if no reward row has a high parent id. -/
def refRow (r : Row Item) : Row (Ref × Item) := if r.pid < 100 then rewardRow r else plainRow r

@[simp] theorem sid_refRow (r : Row Item) : (refRow r).sid = r.sid := by
  unfold refRow
  split <;> rfl

/-- A map that the two loops tell apart: reward rows `H` in front with low parent ids and
distinct dates, then rows `B` filed under containers of the map. -/
structure Split (M H B : ItemMap) : Prop where
  eq : M = H ++ B
  head : ∀ r ∈ H, r.pid < 100
  body : ∀ r ∈ B, 101 ≤ r.pid ∧ ∃ s ∈ M, s.sid = r.pid ∧ s.val.cls.isContainer = true
  sid : ∀ r ∈ M, 101 ≤ r.sid
  sorted : SortedMap.Sorted Row.sid M
  date : (H.map fun r => r.val.date.toUInt32).Nodup

namespace Split

variable {M H B : ItemMap} (h : Split M H B)

include h

theorem findRewards_eq : findRewards M = M.map refRow := by
  have hbody : ∀ r ∈ B, 100 ≤ r.pid := fun r hr => by have := (h.body r hr).1; omega
  rw [h.eq, findRewards_append h.head hbody, List.map_append]
  congr 1
  · exact List.map_congr_left fun r hr => (if_pos (h.head r hr)).symm
  · refine List.map_congr_left fun r hr => (if_neg ?_).symm
    have := hbody r hr
    omega

theorem refRow_body {r : Row Item} (hr : r ∈ B) : refRow r = plainRow r := by
  have := (h.body r hr).1
  exact if_neg (by omega)

theorem mem_body {r : Row Item} (hr : r ∈ M) (hp : 100 ≤ r.pid) : r ∈ B := by
  rw [h.eq] at hr
  rcases List.mem_append.mp hr with hr | hr
  · have := h.head r hr
    omega
  · exact hr

theorem mem_head {r : Row Item} (hr : r ∈ M) (hp : r.pid < 100) : r ∈ H := by
  rw [h.eq] at hr
  rcases List.mem_append.mp hr with hr | hr
  · exact hr
  · have := (h.body r hr).1
    omega

theorem eq_of_sid {r s : Row Item} (hr : r ∈ M) (hs : s ∈ M) (he : r.sid = s.sid) : r = s := by
  have := h.sorted.find?_eq hr
  rw [he, h.sorted.find?_eq hs] at this
  exact (Option.some.inj this).symm

/-- Distinct entries point to distinct objects. -/
theorem eq_of_ref {r s : Row Item} (hr : r ∈ M) (hs : s ∈ M)
    (he : (refRow r).val.1 = (refRow s).val.1) : r = s := by
  unfold refRow at he
  split at he
  · next hrp =>
    split at he
    · next hsp =>
      exact List.inj_on_of_nodup_map h.date (h.mem_head hr hrp) (h.mem_head hs hsp)
        (Ref.reward.inj he)
    · cases he
  · split at he
    · cases he
    · exact h.eq_of_sid hr hs (Ref.row.inj he)

/-- The container found under a parent id is the object of the row with this number. -/
theorem parentRef_eq {s : Row Item} (hs : s ∈ M) (hc : s.val.cls.isContainer = true) :
    parentRef (M.map refRow) s.sid = some (refRow s).val.1 := by
  have hfind : (M.map refRow).find? (·.sid == s.sid) = some (refRow s) := by
    rw [List.find?_map]
    have := h.sorted.find?_eq hs
    simp only [Function.comp_def, sid_refRow, this, Option.map_some]
  have hcls : (refRow s).val.2.cls.isContainer = true := by
    unfold refRow
    split
    · rfl
    · exact hc
  rw [parentRef, hfind]
  dsimp only
  rw [if_pos hcls]

/-- The second loop collects the children of every object. -/
theorem contents_eq {s : Row Item} (hs : s ∈ M) :
    attachRewards (M.map refRow) (M.map refRow).reverse (fun _ => []) (refRow s).val.1 =
      (childRows M s.sid).map plainRow := by
  have hsplit : (M.map refRow).reverse =
      (B.map plainRow).reverse ++ (H.map rewardRow).reverse := by
    rw [← List.reverse_append, ← h.findRewards_eq]
    conv_lhs => rw [h.eq]
    rw [findRewards_append h.head fun r hr => by have := (h.body r hr).1; omega]
  have hB : ∀ r ∈ (B.map plainRow).reverse, 100 ≤ r.pid := by
    intro r hr
    obtain ⟨r', hr', rfl⟩ := List.mem_map.mp (List.mem_reverse.mp hr)
    have := (h.body r' hr').1
    have hp : (plainRow r').pid = r'.pid := rfl
    omega
  have hH : ∀ r ∈ (H.map rewardRow).reverse, r.pid < 100 := by
    intro r hr
    obtain ⟨r', hr', rfl⟩ := List.mem_map.mp (List.mem_reverse.mp hr)
    exact h.head r' hr'
  have hchild : childRows M s.sid = childRows B s.sid := by
    rw [h.eq]
    refine childRows_append_left fun r hr => ?_
    have := h.head r hr
    have := h.sid s hs
    omega
  rw [hsplit, attachRewards_append hB hH, List.foldl_reverse, foldr_pushFront, hchild, childRows,
    List.filter_map]
  congr 1
  refine List.filter_congr fun r hr => ?_
  obtain ⟨-, p, hp, hsp, hc⟩ := h.body r hr
  have hparent : parentRef (M.map refRow) r.pid = some (refRow p).val.1 :=
    hsp ▸ h.parentRef_eq hp hc
  have hpid : (plainRow r).pid = r.pid := rfl
  simp only [Function.comp_apply, hpid, hparent, Bool.beq_eq_decide_eq, Option.some.injEq,
    decide_eq_decide]
  constructor
  · intro he
    rw [← hsp, h.eq_of_ref hp hs (by simpa using he)]
  · intro he
    have : p = s := h.eq_of_sid hp hs (hsp.trans he)
    rw [this]

/-- The trees under the objects are those that the rows build. -/
theorem treeOfRef_eq (depth : ℕ) {r : Row Item} (hr : r ∈ B) :
    treeOfRef (attachRewards (M.map refRow) (M.map refRow).reverse fun _ => []) depth
      (plainRow r) = build M depth r := by
  induction depth generalizing r with
  | zero => rfl
  | succ depth ih =>
    have hmem : r ∈ M := h.eq ▸ List.mem_append_right _ hr
    have hc := h.contents_eq hmem
    rw [h.refRow_body hr] at hc
    have hval : (plainRow r).val.2 = r.val := rfl
    rw [treeOfRef, build, hc, hval, List.map_map]
    refine congrArg _ (List.map_congr_left fun s hs => ih ?_)
    obtain ⟨hs, hp⟩ := List.mem_filter.mp hs
    have hsid := h.sid r hmem
    have hpid : s.pid = r.sid := by simpa using hp
    exact h.mem_body hs (by omega)

end Split

/-! ## The saved map -/

section Saved

variable {env : AttrEnv} {types : Items} {openContainers : List (UInt8 × ℕ)}
  {kept : List (UInt32 × RoseTree Object)}

/-- The rows of the rewards themselves. -/
def headRows (env : AttrEnv) (types : Items) (openContainers : List (UInt8 × ℕ))
    (kept : List (UInt32 × RoseTree Object)) : List (Row Item) :=
  (kept.zipIdx 1).map fun e =>
    ⟨e.2, 100 + e.2, restored env types openContainers e.1.2.label⟩

/-- The rows of what the rewards hold. -/
def bodyRows (env : AttrEnv) (types : Items) (openContainers : List (UInt8 × ℕ))
    (kept : List (UInt32 × RoseTree Object)) : List (Row Item) :=
  (rows (fun o : Object => o.item.cls.isContainer) ((rewardBlock kept).map (·.2.size)).sum
    (101 + (rewardBlock kept).length)
    (batchQueue (·.item.cls.isContainer) 101 (rewardBlock kept))).map
      (Row.map (restored env types openContainers))

theorem zipIdx_zipIdx {α : Type} (l : List α) (m n : ℕ) :
    (l.zipIdx m).zipIdx (n + m) = (l.zipIdx m).map fun e => (e, n + e.2) := by
  induction l generalizing m with
  | nil => rfl
  | cons a l ih =>
    rw [List.zipIdx_cons, List.zipIdx_cons, List.map_cons, Nat.add_assoc, ih (m + 1)]

theorem savedMap_rewardBlock :
    savedMap env types openContainers (rewardBlock kept) =
      headRows env types openContainers kept ++ bodyRows env types openContainers kept := by
  rw [savedMap, flatten, List.map_append, bodyRows]
  congr 1
  rw [batchRows, rewardBlock, List.zipIdx_map, zipIdx_zipIdx kept 1 100, headRows, List.map_map,
    List.map_map, List.map_map]
  rfl

theorem creatable_rewardBlock (hk : ∀ e ∈ kept, IsReward types e) :
    ∀ e ∈ rewardBlock kept, Creatable types e.2 := by
  intro e he
  obtain ⟨f, hf, rfl⟩ := List.mem_map.mp he
  exact (hk f.1 (List.fst_mem_of_mem_zipIdx hf)).creatable

variable (openContainers) in
theorem markOpen_isReward {e : UInt32 × RoseTree Object} (he : IsReward types e) :
    (markOpen openContainers e.2.label).cls = .container ∧
      (markOpen openContainers e.2.label).date = e.1.toInt32 ∧
      (markOpen openContainers e.2.label).getAttributes.getCustomAttributeMap.length <
        256 ^ 8 := by
  refine markOpen_induction (P := fun i => i.cls = .container ∧ i.date = e.1.toInt32 ∧
    i.getAttributes.getCustomAttributeMap.length < 256 ^ 8) ⟨he.cls, he.date, he.custom⟩ ?_
  rintro i v ⟨hcls, hdate, hlen⟩
  refine ⟨hcls, (Item.date_setIntAttr (by decide) v).trans hdate, ?_⟩
  have hmap : (i.setIntAttr .openContainer v).getAttributes.getCustomAttributeMap =
      i.getAttributes.getCustomAttributeMap := by
    rw [Item.setIntAttr, Item.getAttributes, Option.getD_some, ItemAttributes.setIntAttr,
      if_neg (by decide), ItemAttributes.getCustomAttributeMap,
      ItemAttributes.getExistingAttr_modifyAttr_of_ne (by decide) (by decide),
      ItemAttributes.getCustomAttributeMap]
  rw [hmap]
  exact hlen

/-- The reward rows carry the dates of their rewards. -/
theorem date_restored {e : UInt32 × RoseTree Object} (he : IsReward types e) :
    (restored env types openContainers e.2.label).date.toUInt32 = e.1 := by
  obtain ⟨hcls, hdate, hlen⟩ := markOpen_isReward openContainers he
  obtain ⟨p, o, l⟩ := e
  obtain ⟨⟨-, hsome, -⟩, -⟩ := he.creatable
  obtain ⟨c, hc⟩ := exists_createItem ((markOpen openContainers o).getSubType types) hsome
  have hser : (markOpen openContainers o).serializeAttr types =
      (markOpen openContainers o).baseSerializeAttr types := by
    rw [Item.serializeAttr]
    rw [RoseTree.label_node] at hcls
    simp only [hcls]
  rw [RoseTree.label_node] at hdate hlen ⊢
  rw [restored, restoreItem, storeItem, id_markOpen]
  dsimp only
  rw [hc, Option.map_some, Option.getD_some, hser,
    Item.date_unserializeAttr hlen (Item.date_createItem hc), hdate, UInt32.toUInt32_toInt32]

variable (env openContainers) in
/-- Up to ninety-nine rewards leave a map that the loops tell apart. -/
theorem split_savedMap (hk : ∀ e ∈ kept, IsReward types e) (hnodup : (kept.map Prod.fst).Nodup)
    (hlen : kept.length ≤ 99) :
    Split (savedMap env types openContainers (rewardBlock kept))
      (headRows env types openContainers kept) (bodyRows env types openContainers kept) where
  eq := savedMap_rewardBlock
  head r hr := by
    obtain ⟨⟨e, k⟩, he, rfl⟩ := List.mem_map.mp hr
    have := List.snd_lt_add_of_mem_zipIdx he
    dsimp only at this ⊢
    omega
  body r hr := by
    obtain ⟨r', hr', rfl⟩ := List.mem_map.mp hr
    have hc := creatable_rewardBlock hk
    obtain ⟨hle, s, hs, hsp, hcs⟩ := parent_flatten (fun e he => (hc e he).leaf) r' hr'
    obtain ⟨ts, hcls, hsome, -⟩ := forall_flatten hc s hs
    refine ⟨hle, s.map (restored env types openContainers), List.mem_map_of_mem hs, hsp, ?_⟩
    have := (restoreItem_storeItem env openContainers hcls hsome).2
    rw [Row.map, this]
    exact hcs
  sid r hr := by
    have hs : r.sid ∈ (savedMap env types openContainers (rewardBlock kept)).map Row.sid :=
      List.mem_map_of_mem hr
    rw [map_sid_savedMap (creatable_rewardBlock hk), List.mem_range'_1] at hs
    exact hs.1
  sorted := sorted_savedMap (creatable_rewardBlock hk)
  date := by
    have hmap : (headRows env types openContainers kept).map (fun r => r.val.date.toUInt32) =
        kept.map Prod.fst := by
      rw [headRows, List.map_map]
      conv_rhs => rw [← List.zipIdx_map_fst 1 kept, List.map_map]
      exact List.map_congr_left fun e he =>
        date_restored (hk e.1 (List.fst_mem_of_mem_zipIdx he))
    rw [hmap]
    exact hnodup

variable (env openContainers) in
/-- The rows of the rewards build the rewards. -/
theorem build_headRows (hk : ∀ e ∈ kept, IsReward types e) (hlen : kept.length ≤ 99)
    {e : UInt32 × RoseTree Object} {k : ℕ} (he : (e, k) ∈ kept.zipIdx 1) :
    build (savedMap env types openContainers (rewardBlock kept))
      ((savedMap env types openContainers (rewardBlock kept)).length + 1)
      ⟨k, 100 + k, restored env types openContainers e.2.label⟩ =
      e.2.map (restored env types openContainers) := by
  have hc := creatable_rewardBlock hk
  have hcount : (savedMap env types openContainers (rewardBlock kept)).length =
      ((rewardBlock kept).map (·.2.size)).sum := by
    have h : ((savedMap env types openContainers (rewardBlock kept)).map Row.sid).length = _ :=
      congrArg List.length (map_sid_savedMap hc)
    rwa [List.length_map, List.length_range'] at h
  have hpid : ∀ e ∈ rewardBlock kept, e.1 < 101 := by
    intro e he
    obtain ⟨f, hf, rfl⟩ := List.mem_map.mp he
    have := List.snd_lt_add_of_mem_zipIdx hf
    dsimp only
    omega
  have hbuild := map_build_flatten (c := fun o : Object => o.item.cls.isContainer) hpid
    (fun e he => (hc e he).leaf)
    (f := (savedMap env types openContainers (rewardBlock kept)).length + 1) fun e he => by
      have hle : e.2.size ≤ ((rewardBlock kept).map (·.2.size)).sum :=
        List.le_sum_of_mem (List.mem_map_of_mem (f := fun e => e.2.size) he)
      omega
  have hrows : batchRows 101 (rewardBlock kept) =
      (kept.zipIdx 1).map fun e => ⟨e.2, 100 + e.2, e.1.2.label⟩ := by
    rw [batchRows, rewardBlock, List.zipIdx_map, zipIdx_zipIdx kept 1 100, List.map_map,
      List.map_map]
    rfl
  rw [hrows, rewardBlock, List.map_map] at hbuild
  have := congrArg Prod.snd (List.map_inj_left.mp hbuild (e, k) he)
  simp only [Function.comp_apply] at this
  rw [← this, ← build_map]
  rfl

theorem loadRewards_saveItems (hk : ∀ e ∈ kept, IsReward types e)
    (hnodup : (kept.map Prod.fst).Nodup) (hlen : kept.length ≤ 99)
    {result : List (Row StoredItem)}
    (hresult : result.Perm (saveItems types openContainers (rewardBlock kept))) (id : UInt32) :
    loadRewards env types result id = (kept.find? (·.1 == id)).map fun e =>
      e.2.children.map (RoseTree.map (restored env types openContainers)) := by
  have h := split_savedMap env openContainers hk hnodup hlen
  rw [loadRewards, loadItems_perm (creatable_rewardBlock hk) hresult, h.findRewards_eq]
  cases hfind : kept.find? (·.1 == id) with
  | none =>
    rw [List.find?_eq_none] at hfind
    rw [if_neg]
    · rfl
    intro hany
    obtain ⟨r, hr, hid⟩ := List.any_eq_true.mp hany
    rw [← h.findRewards_eq] at hr
    obtain ⟨s, hs, hsp, hdate⟩ := mem_findRewards hr (by simpa using hid)
    obtain ⟨⟨e, k⟩, he, rfl⟩ := List.mem_map.mp (h.mem_head hs hsp)
    have hek := List.fst_mem_of_mem_zipIdx he
    dsimp only at hdate
    rw [date_restored (hk e hek)] at hdate
    exact hfind e hek (by simpa using hdate)
  | some e =>
    have hek := List.mem_of_find?_eq_some hfind
    have heid : e.1 = id := by simpa using List.find?_some hfind
    obtain ⟨k, hz⟩ : ∃ k, (e, k) ∈ kept.zipIdx 1 := by
      have : e ∈ (kept.zipIdx 1).map Prod.fst := by rwa [List.zipIdx_map_fst]
      obtain ⟨⟨e', k⟩, hz, rfl⟩ := List.mem_map.mp this
      exact ⟨k, hz⟩
    have hhead : (⟨k, 100 + k, restored env types openContainers e.2.label⟩ : Row Item) ∈
        headRows env types openContainers kept := List.mem_map.mpr ⟨(e, k), hz, rfl⟩
    have hmem : (⟨k, 100 + k, restored env types openContainers e.2.label⟩ : Row Item) ∈
        savedMap env types openContainers (rewardBlock kept) :=
      h.eq ▸ List.mem_append_left _ hhead
    have href : (refRow ⟨k, 100 + k, restored env types openContainers e.2.label⟩).val.1 =
        .reward id := by
      rw [refRow, if_pos (h.head _ hhead), rewardRow]
      dsimp only
      rw [date_restored (hk e hek), heid]
    have hany : ((savedMap env types openContainers (rewardBlock kept)).map refRow).any
        (·.val.1 == .reward id) = true :=
      List.any_eq_true.mpr ⟨_, List.mem_map_of_mem hmem, by rw [href]; simp⟩
    rw [if_pos hany, Option.map_some]
    have hcontents := h.contents_eq hmem
    rw [href] at hcontents
    rw [hcontents, List.map_map, List.length_map]
    have hbuild := build_headRows env openContainers hk hlen hz
    obtain ⟨id', o, l⟩ := e
    rw [build, RoseTree.map_node] at hbuild
    rw [RoseTree.children_node, ← (RoseTree.node.inj hbuild).2]
    refine congrArg some (List.map_congr_left fun r hr => h.treeOfRef_eq _ ?_)
    obtain ⟨hr, hp⟩ := List.mem_filter.mp hr
    have hpid : r.pid = 100 + k := by simpa using hp
    exact h.mem_body hr (by omega)

variable (env openContainers) in
/-- The hundredth reward is not found: its row looks like the row of an item. -/
theorem loadRewards_hundredth (hk : ∀ e ∈ kept, IsReward types e)
    (hnodup : (kept.map Prod.fst).Nodup) {e : UInt32 × RoseTree Object} (he : kept[99]? = some e)
    {result : List (Row StoredItem)}
    (hresult : result.Perm (saveItems types openContainers (rewardBlock kept))) :
    loadRewards env types result e.1 = none := by
  rw [loadRewards, loadItems_perm (creatable_rewardBlock hk) hresult]
  refine if_neg fun hany => ?_
  obtain ⟨r, hr, hid⟩ := List.any_eq_true.mp hany
  obtain ⟨s, hs, hsp, hdate⟩ := mem_findRewards hr (by simpa using hid)
  rw [savedMap_rewardBlock] at hs
  rcases List.mem_append.mp hs with hs | hs
  · obtain ⟨⟨e', k⟩, hz, rfl⟩ := List.mem_map.mp hs
    dsimp only at hsp hdate
    rw [date_restored (hk e' (List.fst_mem_of_mem_zipIdx hz))] at hdate
    rw [List.mk_mem_zipIdx_iff_le_and_getElem?_sub] at hz
    have h₁ : (kept.map Prod.fst)[k - 1]? = some e.1 := by
      rw [List.getElem?_map, hz.2, Option.map_some, hdate]
    have h₂ : (kept.map Prod.fst)[99]? = some e.1 := by
      rw [List.getElem?_map, he, Option.map_some]
    have hlt : k - 1 < (kept.map Prod.fst).length := (List.getElem?_eq_some_iff.mp h₁).1
    have := (List.getElem?_inj hlt hnodup).mp (h₁.trans h₂.symm)
    omega
  · obtain ⟨r', hr', rfl⟩ := List.mem_map.mp hs
    have := (parent_flatten (fun e he => (creatable_rewardBlock hk e he).leaf) r' hr').1
    have hp : (Row.map (restored env types openContainers) r').pid = r'.pid := rfl
    omega

/-- Every stored reward comes back under its own date with its own items in order, and nothing
else, if and only if at most ninety-nine rewards are stored. -/
theorem loadRewards_saveRewards_iff (env : AttrEnv) (types : Items)
    (openContainers : List (UInt8 × ℕ)) (now : ℤ) {rewardMap : List (UInt32 × RoseTree Object)}
    (hk : ∀ e ∈ rewardMap, IsReward types e) (hnodup : (rewardMap.map Prod.fst).Nodup)
    {result : List (Row StoredItem)}
    (hresult : result.Perm (saveRewards types openContainers now rewardMap)) :
    (∀ id, loadRewards env types result id =
      ((storedRewards now rewardMap).find? (·.1 == id)).map fun e =>
        e.2.children.map (RoseTree.map (restored env types openContainers))) ↔
    (storedRewards now rewardMap).length ≤ 99 := by
  have hk' : ∀ e ∈ storedRewards now rewardMap, IsReward types e :=
    fun e he => hk e (List.mem_of_mem_filter he)
  have hnodup' : ((storedRewards now rewardMap).map Prod.fst).Nodup :=
    hnodup.sublist (List.filter_sublist.map _)
  constructor
  · intro hall
    by_contra hlen
    have hlt : 99 < (storedRewards now rewardMap).length := by omega
    have he := List.getElem?_eq_getElem hlt
    have hnone := loadRewards_hundredth env openContainers hk' hnodup' he hresult
    rw [hall, Option.map_eq_none_iff, List.find?_eq_none] at hnone
    exact hnone _ (List.getElem_mem hlt) (by simp)
  · exact fun hlen id => loadRewards_saveItems hk' hnodup' hlen hresult id

end Saved

/-! ## A hundred rewards -/

/-- The container of rewards and a coin. -/
def rewardTypes : Items where
  items id :=
    if id == ItemId.rewardContainer then { id := ItemId.rewardContainer, group := .container }
    else if id == 2148 then { id := 2148, stackable := true, moveable := true }
    else {}
  reverseItemMap _ := none

/-- Rewards of consecutive seconds with one coin each. -/
def coinRewards (n : ℕ) : List (UInt32 × RoseTree Object) :=
  (List.range n).map fun k => (UInt32.ofNat (1600000000 + k),
    .node ⟨k, newReward (UInt32.ofNat (1600000000 + k))⟩
      [.node ⟨n + k, { cls := .item, id := 2148 }⟩ []])

theorem isReward_coinRewards {n : ℕ} : ∀ e ∈ coinRewards n, IsReward rewardTypes e := by
  intro e he
  obtain ⟨k, -, rfl⟩ := List.mem_map.mp he
  refine ⟨rfl, Item.getIntAttr_setIntAttr_self (by decide) _, ?_, ?_⟩
  · have hnone : (newReward (UInt32.ofNat (1600000000 + k))).getAttributes.getCustomAttributeMap =
        [] := by
      rw [newReward, Item.setIntAttr, Item.getAttributes, Option.getD_some,
        ItemAttributes.setIntAttr, if_neg (by decide), ItemAttributes.getCustomAttributeMap,
        ItemAttributes.getExistingAttr_modifyAttr_of_ne (by decide) (by decide)]
      rfl
    rw [RoseTree.label_node, hnone]
    decide
  · refine .node ⟨rfl, rfl, by simp [newReward, Item.setIntAttr, ItemClass.isContainer]⟩
      fun t ht => ?_
    obtain rfl := List.mem_singleton.mp ht
    exact .node ⟨rfl, rfl, fun _ => rfl⟩ (by simp)

theorem nodup_coinRewards {n : ℕ} (hn : n ≤ 100) : ((coinRewards n).map Prod.fst).Nodup := by
  rw [coinRewards, List.map_map]
  refine List.Nodup.map_on (fun a ha b hb hab => ?_) List.nodup_range
  have ha := List.mem_range.mp ha
  have hb := List.mem_range.mp hb
  have := congrArg UInt32.toNat hab
  simp only [Function.comp_apply, UInt32.toNat_ofNat'] at this
  omega

theorem loadRewards_saveRewards_iff_coin :
    (∀ id, loadRewards ⟨fun _ => [], fun _ => true⟩ rewardTypes
        (saveRewards rewardTypes [] 1600000100 (coinRewards 2)) id =
      ((storedRewards 1600000100 (coinRewards 2)).find? (·.1 == id)).map fun e =>
        e.2.children.map (RoseTree.map (restored ⟨fun _ => [], fun _ => true⟩ rewardTypes []))) ↔
    (storedRewards 1600000100 (coinRewards 2)).length ≤ 99 :=
  loadRewards_saveRewards_iff _ _ _ _ isReward_coinRewards (nodup_coinRewards (by decide))
    (List.Perm.refl _)

theorem mem_coinRewards_recent {n : ℕ} (hn : n ≤ 100) : ∀ e ∈ coinRewards n,
    e.2.children ≠ [] ∧ (1600000100 : ℤ) - e.1.toNat ≤ 60 * 60 * 24 * 7 := by
  intro e he
  obtain ⟨k, hk, rfl⟩ := List.mem_map.mp he
  have hk := List.mem_range.mp hk
  refine ⟨by simp, ?_⟩
  simp only [UInt32.toNat_ofNat']
  omega

/-- Of a hundred fresh rewards the last one is lost. -/
theorem not_restores_hundred_rewards :
    ¬ ∀ (env : AttrEnv) (types : Items) (openContainers : List (UInt8 × ℕ)) (now : ℤ)
      (rewardMap : List (UInt32 × RoseTree Object)), (∀ e ∈ rewardMap, IsReward types e) →
      (rewardMap.map Prod.fst).Nodup →
      (∀ e ∈ rewardMap, e.2.children ≠ [] ∧ now - e.1.toNat ≤ 60 * 60 * 24 * 7) →
      ∀ result : List (Row StoredItem),
        result.Perm (saveRewards types openContainers now rewardMap) →
      ∀ id, loadRewards env types result id = (rewardMap.find? (·.1 == id)).map fun e =>
        e.2.children.map (RoseTree.map (restored env types openContainers)) := by
  intro h
  have hrecent := mem_coinRewards_recent le_rfl
  have hstored : storedRewards 1600000100 (coinRewards 100) = coinRewards 100 := by
    rw [storedRewards, List.filter_eq_self]
    intro e he
    obtain ⟨hne, hle⟩ := hrecent e he
    simp only [Bool.and_eq_true, Bool.not_eq_true', List.isEmpty_eq_false_iff, decide_eq_true_eq]
    exact ⟨hne, hle⟩
  have hlt : 99 < (coinRewards 100).length := by simp [coinRewards]
  have he := List.getElem?_eq_getElem hlt
  have hall := h ⟨fun _ => [], fun _ => true⟩ rewardTypes [] 1600000100 (coinRewards 100)
    isReward_coinRewards (nodup_coinRewards le_rfl) hrecent _ (List.Perm.refl _)
    (coinRewards 100)[99].1
  have hnone := loadRewards_hundredth ⟨fun _ => [], fun _ => true⟩ [] isReward_coinRewards
    (nodup_coinRewards le_rfl) he (List.Perm.refl _)
  rw [saveRewards, hstored, hnone] at hall
  rw [eq_comm, Option.map_eq_none_iff, List.find?_eq_none] at hall
  exact hall _ (List.getElem_mem hlt) (by simp)

end LoginData

end OTServBR
