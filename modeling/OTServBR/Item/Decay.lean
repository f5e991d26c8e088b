import OTServBR.Item.Basic
import OTServBR.Lib.Bounded
import OTServBR.Lib.Run
import OTServBR.Lib.Wheel

/-! # Decay

An item that decays waits in a list of newcomers or in one of four buckets, and
an attribute says so. A change of the id takes the attribute back while the item
is still in its bucket, and the next start of the decay adds it again.
-/

namespace OTServBR.Decay

/-- `EVENT_DECAYINTERVAL * EVENT_DECAY_BUCKETS` milliseconds, with the interval 250. -/
def cycleTime : Int32 := 250 * 4

inductive DecayState
  | notDecaying
  | decaying
  | pending
  deriving DecidableEq, Repr

structure ItemType where
  /-- The id is not 0. -/
  known : Bool := true
  deprecated : Bool := false
  /-- Its items have no class of their own. -/
  plain : Bool := true
  type : ℕ := 0
  alwaysOnTop : Bool := false
  stackable : Bool := false
  hasSubType : Bool := false
  decayTo : Int32 := -1
  decayTime : UInt32 := 0
  stopTime : Bool := false
  deriving DecidableEq, Repr

def ItemType.newDuration (t : ItemType) : UInt32 := t.decayTime * 1000

structure Item where
  id : UInt16
  hasParent : Bool := true
  /-- What the item lies in is removed. -/
  parentRemoved : Bool := false
  isUnique : Bool := false
  canTransform : Bool := true
  canRemove : Bool := true
  hasCharges : Bool := false
  subType : ℕ := 1
  decayState : DecayState := .notDecaying
  duration : Option Int32 := none
  deriving DecidableEq, Repr

structure Game where
  items : ℕ → Item
  /-- The next item that is created. -/
  next : ℕ
  wheel : Wheel ℕ 4

variable (types : UInt16 → ItemType)

namespace Item

def getDuration (item : Item) : Int32 := item.duration.getD 0

def isRemoved (item : Item) : Bool := !item.hasParent || item.parentRemoved

def canDecay (item : Item) : Bool :=
  !item.isRemoved && (0 ≤ (types item.id).decayTo && (types item.id).decayTime ≠ 0) &&
    !item.isUnique

/-- `setID` gives the item the time of its new type. -/
def renews (item : Item) (newid : UInt16) : Bool :=
  0 < (types newid).newDuration && (!(types item.id).stopTime || item.duration.isNone)

/-- `setID` takes the decay from the item. -/
def forgets (newid : UInt16) : Bool :=
  (types newid).newDuration = 0 && !(types newid).stopTime && (types newid).decayTo < 0

def setID (item : Item) (newid : UInt16) : Item :=
  let renews := item.renews types newid
  let item := { item with id := newid }
  let item := if forgets types newid then
      { item with decayState := .notDecaying, duration := none }
    else item
  if renews then
    { item with decayState := .notDecaying,
                duration := some (types newid).newDuration.toInt32 }
  else item

/-- `CreateItem`, with the default duration. -/
def create (type : UInt16) (count : ℕ) : Item :=
  let id := if (types type).plain then OTServBR.Item.plainId type type else type
  { id, subType := if (types type).stackable && count = 0 then 1 else count,
    duration := if (types id).newDuration = 0 then none
      else some (types id).newDuration.toInt32 }

end Item

namespace Game

def setItem (g : Game) (i : ℕ) (item : Item) : Game :=
  { g with items := Function.update g.items i item }

def modifyItem (g : Game) (i : ℕ) (f : Item → Item) : Game := g.setItem i (f (g.items i))

/-- The item is taken out of the world; its entries stay. -/
def takeAway (g : Game) (i : ℕ) : Game :=
  g.modifyItem i fun item => { item with hasParent := false }

def internalRemoveItem (g : Game) (i : ℕ) : Game :=
  if !(g.items i).hasParent then g
  else if !(g.items i).canRemove then g
  else g.takeAway i

/-- The three lines that start the decay of an item. -/
def queue (g : Game) (i : ℕ) : Game :=
  let g := g.modifyItem i fun item => { item with decayState := .decaying }
  { g with wheel := g.wheel.add i }

/-- A new item takes the place of an old one. -/
def replaceThing (g : Game) (i : ℕ) (id : UInt16) (count : ℕ) : Game :=
  { (g.setItem g.next (Item.create types id count)).takeAway i with next := g.next + 1 }

/-- `updateThing` keeps a duration that is left. -/
def updateThing (g : Game) (i : ℕ) (itemId : UInt16) (count : ℕ) : Game :=
  g.modifyItem i fun item =>
    let updated := { item.setID types itemId with subType := count }
    if item.getDuration ≠ 0 then { updated with duration := some item.getDuration } else updated

/-- The body of `transformItem`, `newCount` absent for -1; the call of itself is a parameter. -/
def transformWith (again : UInt16 → Game × Option ℕ) (g : Game) (i : ℕ) (newId : UInt16)
    (newCount : Option ℕ) : Game × Option ℕ :=
  let item := g.items i
  let curType := types item.id
  let newType := types newId
  if item.id = newId &&
      (newCount = none || newCount = some item.subType && newCount ≠ some 0) then
    (g, some i)
  else if !item.hasParent then (g, none)
  else if !item.canTransform then (g, some i)
  else if !newType.known then (g, some i)
  else if curType.alwaysOnTop ≠ newType.alwaysOnTop then
    (g.modifyItem i fun item =>
      { item.setID types newId with subType := newCount.getD item.subType }, some i)
  else if curType.type = newType.type then
    if newCount = some 0 && (curType.stackable || item.hasCharges) then
      if curType.stackable then (g.internalRemoveItem i, none)
      else
        let newItemId := if item.id = newId then curType.decayTo else newId.toUInt32.toInt32
        if newItemId ≤ 0 then (g.internalRemoveItem i, none)
        else if newItemId ≠ newId.toUInt32.toInt32 then
          if (types newItemId.toUInt32.toUInt16).deprecated ||
              !(types newItemId.toUInt32.toUInt16).known then (g, none)
          else (g.replaceThing types i newItemId.toUInt32.toUInt16 1, some g.next)
        else again newItemId.toUInt32.toUInt16
    else
      let itemId := if item.id ≠ newId then newId else item.id
      let count := if newType.hasSubType then newCount.getD item.subType else item.subType
      (g.updateThing types i itemId count, some i)
  else if newType.deprecated then (g, none)
  else
    let created := g.next
    let g := g.replaceThing types i newId (newCount.getD 0)
    if (g.items created).getDuration ≠ 0 && (g.items created).decayState ≠ .decaying then
      (g.queue created, some created)
    else (g, some created)

def transformItem (g : Game) (i : ℕ) (newId : UInt16) (newCount : Option ℕ) : Game × Option ℕ :=
  -- the call of itself has no count and does not come here again
  g.transformWith types (fun id => g.transformWith types (fun _ => (g, none)) i id none) i newId
    newCount

/-- `internalDecayItem`, with what starts the decay of the item it leaves. -/
def decayWith (startDecay : Game → ℕ → Game) (g : Game) (i : ℕ) : Game :=
  let it := types (g.items i).id
  if it.decayTo ≠ 0 then
    match g.transformItem types i it.decayTo.toUInt32.toUInt16 none with
    | (g, none) => g
    | (g, some newItem) => startDecay g newItem
  else g.internalRemoveItem i

/-- The two functions call each other, at most `depth` times. -/
def startDecay : ℕ → Game → ℕ → Game
  | 0, g, _ => g
  | depth + 1, g, i =>
    if !(g.items i).canDecay types then g
    else if (g.items i).decayState = .decaying then g
    else if (g.items i).getDuration ≠ 0 then g.queue i
    else g.decayWith types (startDecay depth) i

def internalDecayItem (depth : ℕ) (g : Game) (i : ℕ) : Game :=
  g.decayWith types (startDecay types depth) i

/-- The body of the loop of `checkDecay`, for an item that is taken out of its bucket. -/
def visit (depth : ℕ) (bucket : Fin 4) (g : Game) (i : ℕ) : Game :=
  let item := g.items i
  if !item.canDecay types then g.modifyItem i fun item => { item with decayState := .notDecaying }
  else
    let decreaseTime := min cycleTime item.getDuration
    let duration := item.getDuration - decreaseTime
    let g := g.modifyItem i fun item => { item with duration := some duration }
    if duration ≤ 0 then g.internalDecayItem types depth i
    else if duration < cycleTime then
      let newBucket := bucket + Fin.ofNat 4 ((duration + 250 / 2) / 1000).toInt.toNat
      if newBucket = bucket then g.internalDecayItem types depth i
      else { g with wheel := g.wheel.push newBucket i }
    else { g with wheel := g.wheel.push bucket i }

/-- The bucket of a newcomer. -/
def place (g : Game) (i : ℕ) : Fin 4 :=
  let dur := (g.items i).getDuration.toUInt32
  if cycleTime.toUInt32 ≤ dur then g.wheel.last
  else g.wheel.last + 1 + Fin.ofNat 4 (dur / 1000).toNat

def cleanup (g : Game) : Game := { g with wheel := g.wheel.flush g.place }

def checkDecay (depth : ℕ) (g : Game) : Game :=
  let bucket := g.wheel.last + 1
  let visited := (g.wheel.buckets bucket).foldl (visit types depth bucket)
    { g with wheel := g.wheel.setBucket bucket [] }
  { visited with wheel := { visited.wheel with last := bucket } }.cleanup

end Game

inductive Action
  | startDecay (i : ℕ)
  | transformItem (i : ℕ) (newId : UInt16) (newCount : Option ℕ)
  | cleanup
  | checkDecay
  deriving DecidableEq, Repr

/-- The calls are about items that there are. -/
def Game.step (depth : ℕ) (g : Game) : Action → Game
  | .startDecay i => if i < g.next then g.startDecay types depth i else g
  | .transformItem i newId newCount =>
    if i < g.next then (g.transformItem types i newId newCount).1 else g
  | .cleanup => g.cleanup
  | .checkDecay => g.checkDecay types depth

variable {types}

namespace Item

variable {item : Item} {newid : UInt16}

/-- `transformItem` changes the id of the item itself. -/
def changesId (types : UInt16 → ItemType) (item : Item) (newId : UInt16)
    (newCount : Option ℕ) : Bool :=
  if item.id = newId &&
      (newCount = none || newCount = some item.subType && newCount ≠ some 0) then false
  else if !item.hasParent then false
  else if !item.canTransform then false
  else if !(types newId).known then false
  else if (types item.id).alwaysOnTop ≠ (types newId).alwaysOnTop then true
  else if (types item.id).type = (types newId).type then
    if newCount = some 0 && ((types item.id).stackable || item.hasCharges) then
      !(types item.id).stackable && item.id ≠ newId && newId ≠ 0
    else true
  else false

@[simp] theorem setID_isRemoved : (item.setID types newid).isRemoved = item.isRemoved := by
  unfold setID
  dsimp only
  split <;> split <;> rfl

@[simp] theorem setID_isUnique : (item.setID types newid).isUnique = item.isUnique := by
  unfold setID
  dsimp only
  split <;> split <;> rfl

@[simp] theorem setID_id : (item.setID types newid).id = newid := by
  unfold setID
  dsimp only
  split <;> split <;> rfl

theorem canDecay_congr {item' : Item} (hid : item'.id = item.id)
    (hremoved : item'.isRemoved = item.isRemoved) (hunique : item'.isUnique = item.isUnique) :
    item'.canDecay types = item.canDecay types := by
  simp only [canDecay, hid, hremoved, hunique]

/-- `transformItem` may leave the item as it is. -/
def stays (types : UInt16 → ItemType) (item : Item) (newId : UInt16)
    (newCount : Option ℕ) : Bool :=
  if item.id = newId &&
      (newCount = none || newCount = some item.subType && newCount ≠ some 0) then true
  else if !item.hasParent then true
  else if !item.canTransform then true
  else if !(types newId).known then true
  else if (types item.id).alwaysOnTop ≠ (types newId).alwaysOnTop then false
  else if (types item.id).type = (types newId).type then
    newCount = some 0 && ((types item.id).stackable || item.hasCharges)
  else (types newId).deprecated

/-- What becomes of an item whose id is changed: it gets a new time and is not decaying, or the
decay is taken from it, or it keeps both; a time that is left may be kept in any case. -/
structure Renamed (types : UInt16 → ItemType) (item : Item) (newid : UInt16) (item' : Item) :
    Prop where
  id : item'.id = newid
  isRemoved : item'.isRemoved = item.isRemoved
  isUnique : item'.isUnique = item.isUnique
  decayState : item'.decayState = (item.setID types newid).decayState
  duration : item'.getDuration = (item.setID types newid).getDuration ∨
    item.getDuration ≠ 0 ∧ item'.getDuration = item.getDuration

theorem Renamed.of_setID {subType : ℕ} :
    Renamed types item newid { item.setID types newid with subType } :=
  ⟨setID_id, setID_isRemoved, setID_isUnique, rfl, Or.inl rfl⟩

theorem Renamed.of_updateThing {subType : ℕ} :
    Renamed types item newid
      (let updated := { item.setID types newid with subType }
       if item.getDuration ≠ 0 then { updated with duration := some item.getDuration }
       else updated) := by
  dsimp only
  split
  · rename_i hduration
    exact ⟨setID_id, setID_isRemoved, setID_isUnique, rfl, Or.inr ⟨hduration, rfl⟩⟩
  · exact .of_setID

end Item

namespace Game

variable {g : Game} {i : ℕ} {newId : UInt16} {newCount : Option ℕ}

/-- What `transformItem` can do. -/
inductive Transformed (types : UInt16 → ItemType) (g : Game) (i : ℕ) (newId : UInt16)
    (newCount : Option ℕ) : Game × Option ℕ → Prop
  | unchanged (r : Option ℕ) (hstays : (g.items i).stays types newId newCount)
      (hr : r = none ∨ r = some i) : Transformed types g i newId newCount (g, r)
  | inPlace (item : Item) (hchanges : (g.items i).changesId types newId newCount)
      (hitem : (g.items i).Renamed types newId item) :
      Transformed types g i newId newCount (g.setItem i item, some i)
  | removed : Transformed types g i newId newCount (g.takeAway i, none)
  | replaced (id : UInt16) (count : ℕ) :
      Transformed types g i newId newCount (g.replaceThing types i id count, some g.next)
  | queued (id : UInt16) (count : ℕ) :
      Transformed types g i newId newCount
        ((g.replaceThing types i id count).queue g.next, some g.next)

theorem removed_or_unchanged (hstays : (g.items i).stays types newId newCount) :
    Transformed types g i newId newCount (g.internalRemoveItem i, none) := by
  unfold internalRemoveItem
  split
  · exact .unchanged _ hstays (Or.inl rfl)
  split
  · exact .unchanged _ hstays (Or.inl rfl)
  · exact .removed

theorem transformWith_spec (again : UInt16 → Game × Option ℕ) (newCount : Option ℕ)
    (hagain : newCount = some 0 → ¬ (types (g.items i).id).stackable → newId ≠ 0 →
      (g.items i).stays types newId newCount →
      Transformed types g i newId newCount (again newId)) :
    Transformed types g i newId newCount (g.transformWith types again i newId newCount) := by
  unfold transformWith
  dsimp only
  by_cases hsame : ((g.items i).id = newId && (newCount = none ||
      newCount = some (g.items i).subType && newCount ≠ some 0)) = true
  · rw [if_pos hsame]
    exact .unchanged _ (by rw [Item.stays, if_pos hsame]) (Or.inr rfl)
  rw [if_neg hsame]
  by_cases hparent : (!(g.items i).hasParent) = true
  · rw [if_pos hparent]
    exact .unchanged _ (by rw [Item.stays, if_neg hsame, if_pos hparent]) (Or.inl rfl)
  rw [if_neg hparent]
  by_cases htransform : (!(g.items i).canTransform) = true
  · rw [if_pos htransform]
    refine .unchanged _ ?_ (Or.inr rfl)
    rw [Item.stays, if_neg hsame, if_neg hparent, if_pos htransform]
  rw [if_neg htransform]
  by_cases hknown : (!(types newId).known) = true
  · rw [if_pos hknown]
    refine .unchanged _ ?_ (Or.inr rfl)
    rw [Item.stays, if_neg hsame, if_neg hparent, if_neg htransform, if_pos hknown]
  rw [if_neg hknown]
  by_cases htop : (types (g.items i).id).alwaysOnTop ≠ (types newId).alwaysOnTop
  · rw [if_pos htop]
    refine .inPlace _ ?_ .of_setID
    rw [Item.changesId, if_neg hsame, if_neg hparent, if_neg htransform, if_neg hknown,
      if_pos htop]
  rw [if_neg htop]
  by_cases htype : (types (g.items i).id).type = (types newId).type
  · rw [if_pos htype]
    by_cases hcount : (newCount = some 0 &&
        ((types (g.items i).id).stackable || (g.items i).hasCharges)) = true
    · rw [if_pos hcount]
      have hstays : (g.items i).stays types newId newCount := by
        rw [Item.stays, if_neg hsame, if_neg hparent, if_neg htransform, if_neg hknown,
          if_neg htop, if_pos htype, hcount]
      by_cases hstackable : (types (g.items i).id).stackable
      · rw [if_pos hstackable]
        exact removed_or_unchanged hstays
      rw [if_neg hstackable]
      generalize hto : (if (g.items i).id = newId then (types (g.items i).id).decayTo
        else newId.toUInt32.toInt32) = newItemId
      by_cases hpos : newItemId ≤ 0
      · rw [if_pos hpos]
        exact removed_or_unchanged hstays
      rw [if_neg hpos]
      by_cases hnew : newItemId ≠ newId.toUInt32.toInt32
      · rw [if_pos hnew]
        split
        · exact .unchanged _ hstays (Or.inl rfl)
        · exact .replaced _ _
      rw [if_neg hnew]
      obtain rfl := not_not.mp hnew
      have hback : newId.toUInt32.toInt32.toUInt32.toUInt16 = newId := by simp
      rw [hback]
      refine hagain (of_decide_eq_true (Bool.and_eq_true _ _ ▸ hcount).1) hstackable ?_ hstays
      rintro rfl
      exact hpos (by decide)
    · rw [if_neg hcount]
      refine .inPlace _ ?_ ?_
      · rw [Item.changesId, if_neg hsame, if_neg hparent, if_neg htransform, if_neg hknown,
          if_neg htop, if_pos htype, if_neg hcount]
      · have hid : (if (g.items i).id ≠ newId then newId else (g.items i).id) = newId := by
          split
          · rfl
          · rename_i h
            exact not_not.mp h
        rw [hid]
        exact .of_updateThing
  rw [if_neg htype]
  split
  · rename_i hdeprecated
    refine .unchanged _ ?_ (Or.inl rfl)
    rw [Item.stays, if_neg hsame, if_neg hparent, if_neg htransform, if_neg hknown,
      if_neg htop, if_neg htype, hdeprecated]
  split
  · exact .queued _ _
  · exact .replaced _ _

theorem transformItem_spec (g : Game) (i : ℕ) (newId : UInt16) (newCount : Option ℕ) :
    Transformed types g i newId newCount (g.transformItem types i newId newCount) := by
  refine transformWith_spec _ newCount fun hcount hstackable hnewId hstays => ?_
  have hinner := @transformWith_spec types g i newId
    (fun _ => (g, none)) none (fun h => by cases h)
  have hflag : (g.items i).changesId types newId none = true →
      (g.items i).changesId types newId newCount = true := by
    subst hcount
    unfold Item.changesId
    by_cases hid : (g.items i).id = newId
    · simp [hid]
    · simp [hid, hstackable, hnewId]
  generalize transformWith types (fun _ => (g, none)) g i newId none = r at hinner
  cases hinner with
  | unchanged r _ hr => exact .unchanged r hstays hr
  | inPlace item hchanges hitem => exact .inPlace item (hflag hchanges) hitem
  | removed => exact .removed
  | replaced id count => exact .replaced id count
  | queued id count => exact .queued id count

end Game

namespace Game

variable {g g' g'' : Game} {i x : ℕ} {newId : UInt16} {newCount : Option ℕ} {rest : List ℕ}
  {depth : ℕ}

/-! ## What happens to other items -/

/-- An item and its entries are the same in both games. -/
structure Keeps (g g' : Game) (x : ℕ) : Prop where
  item : g'.items x = g.items x
  pending : g'.wheel.pending.count x = g.wheel.pending.count x
  bucket : ∀ b, (g'.wheel.buckets b).count x = (g.wheel.buckets b).count x
  last : g'.wheel.last = g.wheel.last
  next : g.next ≤ g'.next

theorem Keeps.refl (g : Game) (x : ℕ) : Keeps g g x :=
  ⟨rfl, rfl, fun _ => rfl, rfl, le_rfl⟩

theorem Keeps.trans (h : Keeps g g' x) (h' : Keeps g' g'' x) : Keeps g g'' x :=
  ⟨h'.item.trans h.item, h'.pending.trans h.pending,
    fun b => (h'.bucket b).trans (h.bucket b), h'.last.trans h.last, h.next.trans h'.next⟩

theorem Keeps.entries (h : Keeps g g' x) : g'.wheel.entries x = g.wheel.entries x := by
  simp only [Wheel.entries, h.pending, h.bucket]

theorem setItem_keeps (item : Item) (hx : x ≠ i) : Keeps g (g.setItem i item) x :=
  ⟨Function.update_of_ne hx _ _, rfl, fun _ => rfl, rfl, le_rfl⟩

theorem queue_keeps (hx : x ≠ i) : Keeps g (g.queue i) x := by
  refine ⟨Function.update_of_ne hx _ _, ?_, fun _ => rfl, rfl, le_rfl⟩
  exact List.count_cons_of_ne (Ne.symm hx)

theorem push_keeps (b : Fin 4) (hx : x ≠ i) :
    Keeps g { g with wheel := g.wheel.push b i } x := by
  refine ⟨rfl, rfl, fun c => ?_, rfl, le_rfl⟩
  by_cases hc : c = b
  · subst hc
    simp [Wheel.push, Ne.symm hx]
  · simp [Wheel.push, Wheel.setBucket_of_ne hc]

theorem internalRemoveItem_keeps (hx : x ≠ i) : Keeps g (g.internalRemoveItem i) x := by
  unfold internalRemoveItem
  split
  · exact .refl g x
  split
  · exact .refl g x
  · exact setItem_keeps _ hx

theorem replaceThing_keeps (id : UInt16) (count : ℕ) (hx : x ≠ i) (hnext : x < g.next) :
    Keeps g (g.replaceThing types i id count) x := by
  have hcreated := setItem_keeps (g := g) (Item.create types id count) hnext.ne
  have haway : Keeps (g.setItem g.next (Item.create types id count))
      ((g.setItem g.next (Item.create types id count)).takeAway i) x := setItem_keeps _ hx
  obtain ⟨hitem, hpending, hbucket, hlast, -⟩ := hcreated.trans haway
  exact ⟨hitem, hpending, hbucket, hlast, Nat.le_succ _⟩

theorem Transformed.keeps {r : Game × Option ℕ}
    (h : Transformed types g i newId newCount r) (hx : x ≠ i) (hnext : x < g.next) :
    Keeps g r.1 x := by
  cases h with
  | unchanged r hstays hr => exact .refl g x
  | inPlace item hchanges hitem => exact setItem_keeps item hx
  | removed => exact setItem_keeps _ hx
  | replaced id count => exact replaceThing_keeps id count hx hnext
  | queued id count =>
    exact (replaceThing_keeps id count hx hnext).trans (queue_keeps hnext.ne)

/-- The item that `transformItem` returns is the old one or a new one. -/
theorem Transformed.result {r : Game × Option ℕ}
    (h : Transformed types g i newId newCount r) {j : ℕ} (hj : r.2 = some j) :
    j = i ∨ j = g.next := by
  cases h with
  | unchanged r hstays hr =>
    rcases hr with rfl | rfl
    · cases hj
    · exact Or.inl (Option.some.inj hj).symm
  | inPlace item hchanges hitem => exact Or.inl (Option.some.inj hj).symm
  | removed => cases hj
  | replaced id count => exact Or.inr (Option.some.inj hj).symm
  | queued id count => exact Or.inr (Option.some.inj hj).symm

theorem decayWith_keeps {f : Game → ℕ → Game}
    (hf : ∀ (g : Game) (j : ℕ), x ≠ j → x < g.next → Keeps g (f g j) x) (hx : x ≠ i)
    (hnext : x < g.next) : Keeps g (g.decayWith types f i) x := by
  unfold decayWith
  dsimp only
  split
  · have hspec := @transformItem_spec types g i
      (types (g.items i).id).decayTo.toUInt32.toUInt16 none
    have hkeeps := hspec.keeps hx hnext
    split
    · rename_i g' hr
      rw [hr] at hkeeps
      exact hkeeps
    · rename_i g' j hr
      rw [hr] at hkeeps hspec
      have hj : x ≠ j := by
        rcases hspec.result rfl with rfl | rfl
        · exact hx
        · exact hnext.ne
      exact hkeeps.trans (hf g' j hj (hnext.trans_le hkeeps.next))
  · exact internalRemoveItem_keeps hx

theorem startDecay_keeps (depth : ℕ) (g : Game) (i : ℕ) (hx : x ≠ i) (hnext : x < g.next) :
    Keeps g (g.startDecay types depth i) x := by
  induction depth generalizing g i with
  | zero => exact .refl g x
  | succ depth ih =>
    unfold startDecay
    split
    · exact .refl g x
    split
    · exact .refl g x
    split
    · exact queue_keeps hx
    · exact decayWith_keeps (fun g j => ih g j) hx hnext

theorem internalDecayItem_keeps (hx : x ≠ i) (hnext : x < g.next) :
    Keeps g (g.internalDecayItem types depth i) x :=
  decayWith_keeps (startDecay_keeps depth) hx hnext

theorem visit_keeps (bucket : Fin 4) (hx : x ≠ i) (hnext : x < g.next) :
    Keeps g (g.visit types depth bucket i) x := by
  unfold visit
  dsimp only
  split
  · exact setItem_keeps _ hx
  · have htime (item : Item) : Keeps g (g.setItem i item) x := setItem_keeps item hx
    split
    · exact (htime _).trans (internalDecayItem_keeps hx hnext)
    split
    · split
      · exact (htime _).trans (internalDecayItem_keeps hx hnext)
      · exact (htime _).trans (push_keeps _ hx)
    · exact (htime _).trans (push_keeps _ hx)

end Game

namespace Item

variable {item item' : Item} {newId : UInt16}

/-- The item can decay and is not decaying after its id is changed: it gets a new time, or its new
type does not decay. -/
def settles (types : UInt16 → ItemType) (item : Item) (newId : UInt16) : Bool :=
  item.renews types newId || !({ item with id := newId } : Item).canDecay types

theorem Renamed.canDecay (h : item.Renamed types newId item') :
    item'.canDecay types = ({ item with id := newId } : Item).canDecay types :=
  canDecay_congr h.id h.isRemoved h.isUnique

theorem Renamed.of_renews (h : item.Renamed types newId item') (hrenews : item.renews types newId) :
    item'.decayState = .notDecaying := by
  rw [h.decayState]
  simp [setID, hrenews]

/-- A change of the id starts no decay. -/
theorem Renamed.decaying (h : item.Renamed types newId item')
    (hdecaying : item'.decayState = .decaying) : item.decayState = .decaying := by
  rw [h.decayState] at hdecaying
  unfold setID at hdecaying
  dsimp only at hdecaying
  split at hdecaying
  · cases hdecaying
  · split at hdecaying
    · cases hdecaying
    · exact hdecaying

theorem Renamed.settled (h : item.Renamed types newId item') (hsettles : item.settles types newId)
    (hdecaying : item'.decayState = .decaying) : item'.canDecay types = false := by
  rcases Bool.or_eq_true_iff.mp hsettles with hrenews | hdecay
  · rw [h.of_renews hrenews] at hdecaying
    cases hdecaying
  · rw [h.canDecay]
    simpa using hdecay

end Item

namespace Game

variable {g g' : Game} {i x n : ℕ} {newId : UInt16} {newCount : Option ℕ} {rest : List ℕ}
  {depth : ℕ}

/-! ## One entry for an item that decays -/

/-- How often an item stands in the wheel and in the list of those that are yet to be visited. -/
def listed (g : Game) (rest : List ℕ) (x : ℕ) : ℕ := g.wheel.entries x + rest.count x

/-- An item that stands in `n` places is right. -/
structure Right (types : UInt16 → ItemType) (g : Game) (n x : ℕ) : Prop where
  once : n ≤ 1
  decaying : (g.items x).decayState = .decaying → (g.items x).canDecay types → n ≠ 0
  fresh : g.next ≤ x → n = 0 ∧ (g.items x).decayState ≠ .decaying

def Inv (types : UInt16 → ItemType) (g : Game) (rest : List ℕ) : Prop :=
  ∀ x, Right types g (g.listed rest x) x

/-- All but one item are right. -/
def InvBut (types : UInt16 → ItemType) (g : Game) (rest : List ℕ) (i : ℕ) : Prop :=
  ∀ x, x ≠ i → Right types g (g.listed rest x) x

theorem Keeps.right (h : Keeps g g' x) (hright : Right types g n x) : Right types g' n x :=
  ⟨hright.once, h.item ▸ hright.decaying, fun hx => h.item ▸ hright.fresh (h.next.trans hx)⟩

theorem Keeps.listed (h : Keeps g g' x) : g'.listed rest x = g.listed rest x := by
  simp only [Game.listed, h.entries]

theorem Inv.but (h : Inv types g rest) (i : ℕ) : InvBut types g rest i := fun x _ => h x

theorem Inv.lt_next (h : Inv types g rest) (hx : g.listed rest x ≠ 0) : x < g.next := by
  by_contra hle
  exact hx ((h x).fresh (Nat.not_lt.mp hle)).1

theorem inv_setItem (h : InvBut types g rest i) (hi : i < g.next) (honce : g.listed rest i ≤ 1)
    {item : Item} (hitem : item.decayState = .decaying → item.canDecay types →
      g.listed rest i ≠ 0) : Inv types (g.setItem i item) rest := by
  intro x
  by_cases hx : x = i
  · subst hx
    have hnew : (g.setItem x item).items x = item := Function.update_self _ _ _
    refine ⟨honce, ?_, fun hle => absurd hi (Nat.not_lt.mpr hle)⟩
    rw [hnew]
    exact hitem
  · have hkeeps := setItem_keeps (g := g) item hx
    rw [hkeeps.listed]
    exact hkeeps.right (h x hx)

theorem inv_takeAway (h : InvBut types g rest i) (hi : i < g.next) (honce : g.listed rest i ≤ 1) :
    Inv types (g.takeAway i) rest :=
  inv_setItem h hi honce fun _ hdecay => by simp [Item.canDecay, Item.isRemoved] at hdecay

theorem inv_queue (h : Inv types g rest) (hi : i < g.next) (hnone : g.listed rest i = 0) :
    Inv types (g.queue i) rest := by
  intro x
  by_cases hx : x = i
  · subst hx
    have hone : (g.queue x).listed rest x = 1 := by
      have hentries := Wheel.entries_add (w := g.wheel) (a := x) (b := x)
      rw [if_pos rfl] at hentries
      change (g.wheel.add x).entries x + rest.count x = 1
      unfold Game.listed at hnone
      omega
    rw [hone]
    exact ⟨le_rfl, fun _ _ => Nat.one_ne_zero, fun hle => absurd hi (Nat.not_lt.mpr hle)⟩
  · have hkeeps := queue_keeps (g := g) hx
    rw [hkeeps.listed]
    exact hkeeps.right (h x)

theorem inv_replaceThing (h : InvBut types g rest i) (hi : i < g.next)
    (honce : g.listed rest i ≤ 1) (id : UInt16) (count : ℕ) :
    Inv types (g.replaceThing types i id count) rest ∧
      (g.replaceThing types i id count).listed rest g.next = 0 := by
  have hnext : g.listed rest g.next = 0 := ((h g.next hi.ne').fresh le_rfl).1
  refine ⟨fun x => ?_, hnext⟩
  rcases Nat.lt_trichotomy x g.next with hx | rfl | hx
  · by_cases hxi : x = i
    · subst hxi
      have hremoved : ((g.replaceThing types x id count).items x).canDecay types = false := by
        simp [replaceThing, takeAway, modifyItem, setItem, Item.canDecay, Item.isRemoved]
      refine ⟨honce, fun _ hdecay => ?_, fun hle => ?_⟩
      · rw [hremoved] at hdecay
        cases hdecay
      · exact absurd hle (Nat.not_le.mpr (Nat.lt_succ_of_lt hx))
    · have hkeeps := @replaceThing_keeps types _ _ _ id count hxi hx
      rw [hkeeps.listed]
      exact hkeeps.right (h x hxi)
  · have hitem : (g.replaceThing types i id count).items g.next = Item.create types id count := by
      simp [replaceThing, takeAway, modifyItem, setItem, hi.ne']
    have hnot : (Item.create types id count).decayState ≠ .decaying := by
      simp [Item.create]
    change Right types _ (g.listed rest g.next) g.next
    rw [hnext]
    refine ⟨Nat.zero_le _, fun hdecaying => ?_, fun _ => ⟨rfl, ?_⟩⟩
    · rw [hitem] at hdecaying
      exact absurd hdecaying hnot
    · rw [hitem]
      exact hnot
  · have hitem : (g.replaceThing types i id count).items x = g.items x := by
      simp [replaceThing, takeAway, modifyItem, setItem, hx.ne', (hi.trans hx).ne']
    have hright := h x (hi.trans hx).ne'
    obtain ⟨hzero, hnot⟩ := hright.fresh hx.le
    change Right types _ (g.listed rest x) x
    refine ⟨hright.once, fun hdecaying => ?_, fun _ => ⟨hzero, ?_⟩⟩
    · rw [hitem] at hdecaying
      exact absurd hdecaying hnot
    · rw [hitem]
      exact hnot

/-- A new item or an item that is changed in place leaves the others right; the item itself has to
be right in the two cases in which it stays. -/
theorem Transformed.inv {r : Game × Option ℕ}
    (h : Transformed types g i newId newCount r) (hbut : InvBut types g rest i) (hi : i < g.next)
    (honce : g.listed rest i ≤ 1)
    (hunchanged : (g.items i).stays types newId newCount → Right types g (g.listed rest i) i)
    (hplace : ∀ item, (g.items i).changesId types newId newCount →
      (g.items i).Renamed types newId item →
      item.decayState = .decaying → item.canDecay types → g.listed rest i ≠ 0) :
    Inv types r.1 rest := by
  cases h with
  | unchanged r hstays hr =>
    intro x
    by_cases hx : x = i
    · subst hx
      exact hunchanged hstays
    · exact hbut x hx
  | inPlace item hchanges hitem =>
    exact inv_setItem hbut hi honce (hplace item hchanges hitem)
  | removed => exact inv_takeAway hbut hi honce
  | replaced id count => exact (inv_replaceThing hbut hi honce id count).1
  | queued id count =>
    obtain ⟨hinv, hnone⟩ := inv_replaceThing hbut hi honce id count
    exact inv_queue hinv (Nat.lt_succ_self _) hnone

theorem internalRemoveItem_inv (h : Inv types g rest) (hi : i < g.next) :
    Inv types (g.internalRemoveItem i) rest := by
  unfold internalRemoveItem
  split
  · exact h
  split
  · exact h
  · exact inv_takeAway (h.but i) hi (h i).once

end Game

namespace Game

variable {g g' : Game} {i x n : ℕ} {newId : UInt16} {newCount : Option ℕ} {rest : List ℕ}
  {depth : ℕ}

/-- What `transformItem` returns may be given to `startDecay`. -/
theorem Transformed.startable {r : Game × Option ℕ}
    (h : Transformed types g i newId newCount r) (hbut : InvBut types g rest i) (hi : i < g.next)
    (hnone : g.listed rest i = 0) {j : ℕ} (hj : r.2 = some j) :
    j < r.1.next ∧ ((r.1.items j).decayState ≠ .decaying → r.1.listed rest j = 0) := by
  cases h with
  | unchanged r hstays hr =>
    rcases hr with rfl | rfl
    · cases hj
    · obtain rfl := Option.some.inj hj
      exact ⟨hi, fun _ => hnone⟩
  | inPlace item hchanges hitem =>
    obtain rfl := Option.some.inj hj
    exact ⟨hi, fun _ => hnone⟩
  | removed => cases hj
  | replaced id count =>
    obtain rfl := Option.some.inj hj
    have honce : g.listed rest i ≤ 1 := by omega
    exact ⟨Nat.lt_succ_self _, fun _ => (inv_replaceThing hbut hi honce id count).2⟩
  | queued id count =>
    obtain rfl := Option.some.inj hj
    refine ⟨Nat.lt_succ_self _, fun hnot => ?_⟩
    simp [queue, modifyItem, setItem] at hnot

/-- The decay may start for an item that has no entry. -/
theorem startDecay_inv (depth : ℕ) (g : Game) (i : ℕ) (h : Inv types g rest) (hi : i < g.next)
    (hnone : (g.items i).canDecay types → (g.items i).decayState ≠ .decaying →
      g.listed rest i = 0) : Inv types (g.startDecay types depth i) rest := by
  induction depth generalizing g i with
  | zero => exact h
  | succ depth ih =>
    unfold startDecay
    split
    · exact h
    rename_i hdecay
    split
    · exact h
    rename_i hstate
    have hzero := hnone (by simpa using hdecay) hstate
    split
    · exact inv_queue h hi hzero
    unfold decayWith
    dsimp only
    split
    · have hspec := @transformItem_spec types g i
        (types (g.items i).id).decayTo.toUInt32.toUInt16 none
      have hinv := hspec.inv (h.but i) hi (h i).once (fun _ => h i)
        fun item _ hitem hdecaying => absurd (hitem.decaying hdecaying) hstate
      split
      · rename_i g' hr
        rw [hr] at hinv
        exact hinv
      · rename_i g' j hr
        rw [hr] at hinv hspec
        obtain ⟨hj, hnew⟩ := hspec.startable (h.but i) hi hzero rfl
        exact ih g' j hinv hj fun _ => hnew
    · exact internalRemoveItem_inv h hi

/-- An item whose time is over is replaced or removed, or is changed so that no decay is left that
has no entry. -/
def decaysWell (types : UInt16 → ItemType) (item : Item) : Bool :=
  let decayTo := (types item.id).decayTo.toUInt32.toUInt16
  if (types item.id).decayTo = 0 then item.canRemove
  else !item.stays types decayTo none &&
    (!item.changesId types decayTo none ||
      ({ item with duration := some 0 } : Item).settles types decayTo)

theorem internalDecayItem_inv (h : InvBut types g rest i) (hi : i < g.next)
    (hnone : g.listed rest i = 0) (hdecay : (g.items i).canDecay types)
    (hduration : (g.items i).duration = some 0) (hwell : decaysWell types (g.items i)) :
    Inv types (g.internalDecayItem types depth i) rest := by
  have honce : g.listed rest i ≤ 1 := by omega
  unfold internalDecayItem decayWith
  dsimp only
  unfold decaysWell at hwell
  dsimp only at hwell
  split
  · rename_i hto
    rw [if_neg hto, Bool.and_eq_true, Bool.or_eq_true] at hwell
    have hspec := @transformItem_spec types g i
      (types (g.items i).id).decayTo.toUInt32.toUInt16 none
    have hitem : ({ g.items i with duration := some 0 } : Item) = g.items i := by
      rw [← hduration]
    have hinv := hspec.inv h hi honce
      (fun hstays => by rw [hstays] at hwell; exact absurd hwell.1 (by decide))
      (fun item hchanges hrenamed hdecaying hcan => by
        have hsettles := hwell.2.resolve_left (by rw [hchanges]; decide)
        rw [hitem] at hsettles
        rw [hrenamed.settled hsettles hdecaying] at hcan
        cases hcan)
    split
    · rename_i g' hr
      rw [hr] at hinv
      exact hinv
    · rename_i g' j hr
      rw [hr] at hinv hspec
      obtain ⟨hj, hnew⟩ := hspec.startable h hi hnone rfl
      exact startDecay_inv depth g' j hinv hj fun _ => hnew
  · rename_i hto
    rw [if_pos (not_not.mp hto)] at hwell
    have hparent : (g.items i).hasParent = true := by
      simp only [Item.canDecay, Item.isRemoved, Bool.and_eq_true, Bool.not_eq_true',
        Bool.or_eq_false_iff, Bool.not_eq_false'] at hdecay
      exact hdecay.1.1.1
    rw [internalRemoveItem, if_neg (by simp [hparent]), if_neg (by simp [hwell])]
    exact inv_takeAway h hi honce

/-! ## A tick -/

/-- A visit takes whole seconds from an item, or all that is left. -/
def visitsWell (types : UInt16 → ItemType) (item : Item) : Bool :=
  !item.canDecay types ||
    if item.getDuration ≤ cycleTime then decaysWell types item
    else 2 * cycleTime ≤ item.getDuration

theorem sub_min_of_le {d : Int32} (h : d ≤ cycleTime) : d - min cycleTime d = 0 := by
  have hmin : min cycleTime d = d := by
    change (if cycleTime ≤ d then cycleTime else d) = d
    split
    · exact Int32.le_antisymm ‹_› h
    · rfl
  rw [hmin, Int32.sub_self]

theorem toInt_sub_cycleTime {d : Int32} (h : 2 * cycleTime ≤ d) :
    (d - cycleTime).toInt = d.toInt - 1000 := by
  have hlow : 2000 ≤ d.toInt := Int32.le_iff_toInt_le.mp h
  have hhigh := d.toInt_lt
  rw [Int32.toInt_sub]
  change (d.toInt - 1000).bmod (2 ^ 32) = _
  refine Int.bmod_eq_of_le ?_ ?_ <;> omega

theorem min_of_two_le {d : Int32} (h : 2 * cycleTime ≤ d) : min cycleTime d = cycleTime := by
  have hlow : 2000 ≤ d.toInt := Int32.le_iff_toInt_le.mp h
  refine if_pos (Int32.le_iff_toInt_le.mpr ?_)
  change (1000 : ℤ) ≤ _
  omega

/-- The visit of an item that cannot decay, that is at its end, and that goes on. -/
theorem visit_cases (bucket : Fin 4) (h : visitsWell types (g.items i)) :
    (¬ (g.items i).canDecay types ∧ g.visit types depth bucket i =
        g.setItem i { g.items i with decayState := .notDecaying }) ∨
      ((g.items i).canDecay types ∧ (g.items i).getDuration ≤ cycleTime ∧
        decaysWell types (g.items i) ∧ g.visit types depth bucket i =
          (g.setItem i { g.items i with duration := some 0 }).internalDecayItem types depth i) ∨
      ((g.items i).canDecay types ∧ 2 * cycleTime ≤ (g.items i).getDuration ∧
        g.visit types depth bucket i =
          { g.setItem i { g.items i with
              duration := some ((g.items i).getDuration - cycleTime) } with
            wheel := g.wheel.push bucket i }) := by
  by_cases hdecay : (g.items i).canDecay types
  · right
    rw [visitsWell, hdecay, Bool.not_true, Bool.false_or] at h
    by_cases hle : (g.items i).getDuration ≤ cycleTime
    · left
      rw [if_pos hle] at h
      refine ⟨hdecay, hle, h, ?_⟩
      have hzero := sub_min_of_le hle
      unfold visit modifyItem
      dsimp only
      rw [hzero, hdecay, if_neg (by decide), if_pos (by decide)]
    · right
      rw [if_neg hle] at h
      have htwo : 2 * cycleTime ≤ (g.items i).getDuration := of_decide_eq_true h
      refine ⟨hdecay, htwo, ?_⟩
      have hsub := toInt_sub_cycleTime htwo
      have hlow : 2000 ≤ (g.items i).getDuration.toInt := Int32.le_iff_toInt_le.mp htwo
      have hpos : ¬ (g.items i).getDuration - cycleTime ≤ 0 := by
        rw [Int32.le_iff_toInt_le, hsub]
        change ¬ _ ≤ (0 : ℤ)
        omega
      have hlong : ¬ (g.items i).getDuration - cycleTime < cycleTime := by
        rw [Int32.lt_iff_toInt_lt, hsub]
        change ¬ _ < (1000 : ℤ)
        omega
      unfold visit modifyItem
      dsimp only
      rw [min_of_two_le htwo, hdecay, if_neg (by decide), if_neg hpos, if_neg hlong]
      rfl
  · left
    refine ⟨hdecay, ?_⟩
    unfold visit modifyItem
    dsimp only
    rw [if_pos (by simpa using hdecay)]

theorem visit_inv (bucket : Fin 4) (h : Inv types g (i :: rest))
    (hwell : visitsWell types (g.items i)) :
    Inv types (g.visit types depth bucket i) rest := by
  have hlisted (x : ℕ) : g.listed (i :: rest) x = g.listed rest x + if i = x then 1 else 0 := by
    simp only [listed, List.count_cons, beq_iff_eq]
    omega
  have hone := (h i).once
  rw [hlisted, if_pos rfl] at hone
  have hnone : g.listed rest i = 0 := by omega
  have hi : i < g.next := h.lt_next (by rw [hlisted, if_pos rfl]; omega)
  have hbut : InvBut types g rest i := by
    intro x hx
    have hright := h x
    rwa [hlisted, if_neg (Ne.symm hx)] at hright
  rcases @visit_cases _ _ _ depth bucket hwell with
    ⟨-, hvisit⟩ | ⟨hdecay, -, hends, hvisit⟩ | ⟨-, -, hvisit⟩
  · rw [hvisit]
    exact inv_setItem hbut hi (by omega) fun hdecaying => by cases hdecaying
  · rw [hvisit]
    have hitem : (g.setItem i { g.items i with duration := some 0 }).items i =
        { g.items i with duration := some 0 } := Function.update_self _ _ _
    refine internalDecayItem_inv (fun x hx => ?_) hi hnone ?_ ?_ ?_
    · have hkeeps := setItem_keeps (g := g) { g.items i with duration := some 0 } hx
      rw [hkeeps.listed]
      exact hkeeps.right (hbut x hx)
    · rw [hitem]
      exact hdecay
    · rw [hitem]
    · rw [hitem]
      exact hends
  · rw [hvisit]
    intro x
    by_cases hx : x = i
    · subst hx
      have hentries := Wheel.entries_push (w := g.wheel) (i := bucket) (a := x) (b := x)
      rw [if_pos rfl] at hentries
      have hsum : (g.wheel.push bucket x).entries x + rest.count x = 1 := by
        unfold listed at hnone
        omega
      change Right types _ ((g.wheel.push bucket x).entries x + rest.count x) x
      rw [hsum]
      exact ⟨le_rfl, fun _ _ => Nat.one_ne_zero, fun hle => absurd hi (Nat.not_lt.mpr hle)⟩
    · have hset := setItem_keeps (g := g) { g.items i with
        duration := some ((g.items i).getDuration - cycleTime) } hx
      have hkeeps := hset.trans (push_keeps bucket hx)
      have hright := hkeeps.right (hbut x hx)
      rw [← hkeeps.listed] at hright
      exact hright

/-- The loop over a bucket. -/
theorem visitAll_inv (bucket : Fin 4) (l : List ℕ) (g : Game) (h : Inv types g l)
    (hwell : ∀ i ∈ l, visitsWell types (g.items i)) :
    Inv types (l.foldl (visit types depth bucket) g) [] := by
  induction l generalizing g with
  | nil => exact h
  | cons i l ih =>
    refine ih _ (visit_inv bucket h (hwell i List.mem_cons_self)) fun x hx => ?_
    have hone := (h i).once
    have hxi : x ≠ i := by
      rintro rfl
      have hpos := List.count_pos_iff.mpr hx
      simp only [listed, List.count_cons_self] at hone
      omega
    have hnext : x < g.next := h.lt_next (by
      have hpos := List.count_pos_iff.mpr (List.mem_cons_of_mem i hx)
      unfold listed
      omega)
    rw [(visit_keeps bucket hxi hnext).item]
    exact hwell x (List.mem_cons_of_mem i hx)

end Game

namespace Game

variable {g g' : Game} {i x n : ℕ} {newId : UInt16} {newCount : Option ℕ} {rest : List ℕ}
  {depth : ℕ}

theorem cleanup_inv (h : Inv types g []) : Inv types g.cleanup [] := by
  intro x
  have hright := h x
  unfold listed at hright ⊢
  rw [cleanup, Wheel.entries_flush]
  exact ⟨hright.once, hright.decaying, hright.fresh⟩

theorem checkDecay_inv (h : Inv types g [])
    (hwell : ∀ i ∈ g.wheel.buckets (g.wheel.last + 1), visitsWell types (g.items i)) :
    Inv types (g.checkDecay types depth) [] := by
  have hstart : Inv types
      { g with wheel := g.wheel.setBucket (g.wheel.last + 1) [] }
      (g.wheel.buckets (g.wheel.last + 1)) := by
    intro x
    have hright := h x
    have hentries := Wheel.entries_setBucket (w := g.wheel) (i := g.wheel.last + 1) (a := x) []
    have hlisted : listed { g with wheel := g.wheel.setBucket (g.wheel.last + 1) [] }
        (g.wheel.buckets (g.wheel.last + 1)) x = g.listed [] x := by
      simpa [listed] using hentries
    rw [hlisted]
    exact ⟨hright.once, hright.decaying, hright.fresh⟩
  have hloop := @visitAll_inv _ depth (g.wheel.last + 1) _ _ hstart hwell
  refine cleanup_inv fun x => ?_
  have hright := hloop x
  exact ⟨hright.once, hright.decaying, hright.fresh⟩

/-! ## Runs -/

/-- The decay starts only for an item of which no entry is left; an item that waits gets no new
time with a new id, and one that is decaying without an entry does not take its decay along; a tick
finds whole seconds or the last second, and items that leave no decay behind. -/
def Safe (types : UInt16 → ItemType) (g : Game) : Action → Prop
  | .startDecay i => (g.items i).canDecay types → (g.items i).decayState ≠ .decaying →
      g.wheel.entries i = 0
  | .transformItem i newId newCount => (g.items i).changesId types newId newCount →
      if g.wheel.entries i = 0 then
        (g.items i).decayState = .decaying → (g.items i).settles types newId
      else ¬ (g.items i).renews types newId
  | .cleanup => True
  | .checkDecay => ∀ i ∈ g.wheel.buckets (g.wheel.last + 1), visitsWell types (g.items i)

instance (g : Game) (action : Action) : Decidable (g.Safe types action) :=
  match action with
  | .startDecay i => inferInstanceAs (Decidable
      ((g.items i).canDecay types → (g.items i).decayState ≠ .decaying → g.wheel.entries i = 0))
  | .transformItem i newId newCount => inferInstanceAs (Decidable
      ((g.items i).changesId types newId newCount →
        if g.wheel.entries i = 0 then
          (g.items i).decayState = .decaying → (g.items i).settles types newId
        else ¬ (g.items i).renews types newId))
  | .cleanup => isTrue trivial
  | .checkDecay => inferInstanceAs (Decidable
      (∀ i ∈ g.wheel.buckets (g.wheel.last + 1), visitsWell types (g.items i)))

theorem step_inv (h : Inv types g []) (action : Action) (hsafe : g.Safe types action) :
    Inv types (g.step types depth action) [] := by
  cases action with
  | startDecay i =>
    simp only [step]
    split
    · rename_i hi
      exact startDecay_inv depth g i h hi hsafe
    · exact h
  | transformItem i newId newCount =>
    simp only [step]
    split
    · rename_i hi
      refine (transformItem_spec g i newId newCount).inv (h.but i) hi (h i).once (fun _ => h i)
        fun item hchanges hitem hdecaying hdecay => ?_
      have hsafe := hsafe hchanges
      split at hsafe
      · rename_i hnone
        have hsettled := hitem.settled (hsafe (hitem.decaying hdecaying)) hdecaying
        rw [hsettled] at hdecay
        cases hdecay
      · rename_i hsome
        exact hsome
    · exact h
  | cleanup => exact cleanup_inv h
  | checkDecay => exact checkDecay_inv h hsafe

end Game

end OTServBR.Decay
