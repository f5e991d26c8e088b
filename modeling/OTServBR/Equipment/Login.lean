import OTServBR.Equipment.Runs

/-! # Logging out and in

A player is saved with the equipment on and loaded without the bonuses of it; the
loop over the slots at login puts the items on again. Counters are not saved, so
they come back once. The capacity of imbuements is added to the member that is
saved, in whole hundreds.
-/

namespace OTServBR.Equipment

def Slot.index (s : Slot) : ℕ := Slot.all.idxOf s

structure Character where
  player : Player
  baseSpeed : UInt32
  game : Game

/-- The row of a player and the rows of the items in the slots; what the account and the group of
the player say stands beside. -/
structure Row where
  level : UInt32
  maglevel : UInt32
  healthmax : Int32
  manamax : UInt32
  skills : Fin 13 → UInt16
  vocation : UInt16
  cap : UInt32
  isPremium : Bool
  ignoreWeaponCheck : Bool
  items : Slot → Option Item

/-- The values of a player that its equipment is part of. -/
@[ext]
structure Values where
  capacity : UInt32
  maxHealth : ℤ
  maxMana : ℤ
  magicLevel : ℤ
  skillLevel : Fin 13 → ℤ
  speed : ℤ

def savePlayer (c : Character) : Row where
  level := c.player.level
  maglevel := c.player.magLevel
  healthmax := c.player.healthMax
  manamax := c.player.manaMax
  skills := c.player.skills
  vocation := c.player.vocationId
  cap := c.game.capacity / 100
  isPremium := c.player.isPremium
  ignoreWeaponCheck := c.player.ignoreWeaponCheck
  items s := (c.game.inventory s).map c.game.items

section Load

variable (w : World) (vocationSpeed : UInt16 → UInt32)

/-- `CreateItem` and the attributes of a row. -/
def loadItem (item : Item) : Option Item :=
  if (w.types item.id).deprecated || !(w.types item.id).known then none
  else
    let created := Decay.Item.create w.decayTypes item.id item.subType
    some { item with
      id := created.id
      hasParent := true
      parentRemoved := false
      carried := false
      decayState := if item.decayState = .notDecaying then .notDecaying else .pending
      duration := match item.duration with
        | some duration => some (max 0 duration)
        | none => created.duration }

def loadedItem (row : Row) (s : Slot) : Option Item := (row.items s).bind (loadItem w)

/-- The loaded player before the items are put on, and the loop of the login still to be run. -/
def loadGame (row : Row) : Game where
  items n := ((Slot.all[n]?).bind (loadedItem w row)).getD { id := 0 }
  next := Slot.all.length
  inventory s := (loadedItem w row s).map fun _ => s.index
  inventoryAbilities _ := false
  bonus := 0
  capacity := row.cap * 100
  conditionSuppressions := 0
  calls := Slot.all.map .login

def loadPlayer (row : Row) : Player where
  level := max 1 row.level
  magLevel := row.maglevel
  healthMax := row.healthmax
  manaMax := row.manamax
  skills := row.skills
  vocationId := row.vocation
  isPremium := row.isPremium
  ignoreWeaponCheck := row.ignoreWeaponCheck

/-- `updateBaseSpeed`, without the flag for the highest speed. -/
def updateBaseSpeed (player : Player) : UInt32 :=
  vocationSpeed player.vocationId + 2 * (player.level - 1)

/-- The calls that are left are made. -/
def makeCalls (fuel : ℕ) (g : Game) : Game := (Game.makeCall w)^[fuel] g

/-- The player is saved, loaded and put into the game; `fuel` bounds the calls at login. -/
def cycle (c : Character) (fuel : ℕ) : Character :=
  let row := savePlayer c
  let player := loadPlayer row
  { player, baseSpeed := updateBaseSpeed vocationSpeed player,
    game := makeCalls { w with player } fuel (loadGame w row) }

end Load

namespace Character

variable (c : Character)

def getCapacity : UInt32 := c.game.capacity

def getMaxHealth : ℤ := max 1 (c.player.healthMax.toInt + c.game.bonus (.stat .maxHitPoints))

def getMaxMana : ℤ := max 0 ((c.player.manaMax.toNat : ℤ) + c.game.bonus (.stat .maxManaPoints))

def getMagicLevel : ℤ := max 0 ((c.player.magLevel.toNat : ℤ) + c.game.bonus (.stat .magicPoints))

/-- Two skills are chances and end at 100; the level is cut to 16 bits. -/
def getSkillLevel (i : Fin 13) : ℤ :=
  let level := ((c.player.skills i).toNat + c.game.bonus (.skill i)) % 65536
  if i = 9 ∨ i = 11 then min 100 level else level

def getSpeed : ℤ := (c.baseSpeed.toNat : ℤ) + c.game.bonus .speed

def values : Values where
  capacity := c.getCapacity
  maxHealth := c.getMaxHealth
  maxMana := c.getMaxMana
  magicLevel := c.getMagicLevel
  skillLevel := c.getSkillLevel
  speed := c.getSpeed

end Character

/-- The item of the type can be put on into the slot. -/
def puts (w : World) (bonus : Bonus) (id : UInt16) (s : Slot) : Bool :=
  (getEvent (w.equipEvents id) s).any (w.wields bonus)

namespace Item

/-- An item with no time left does not decay. -/
def Rests (w : World) (item : Item) : Prop := item.canDecay w.decayTypes → item.getDuration ≠ 0

/-- What `startDecay` makes of an item that rests. -/
def started (w : World) (item : Item) : Item :=
  if item.canDecay w.decayTypes && item.decayState ≠ .decaying then
    { item with decayState := .decaying }
  else item

/-- What a change in place makes of an item. -/
def turned (w : World) (item : Item) (id : UInt16) : Item :=
  if item.getDuration ≠ 0 then
    { w.changed item id none with duration := some item.getDuration }
  else w.changed item id none

end Item

namespace Game

variable {w : World} {g : Game} {i : ℕ} {s : Slot}

@[simp] theorem setItem_setItem {item item' : Item} :
    (g.setItem i item).setItem i item' = g.setItem i item' := by
  simp [setItem]

theorem setItem_self : g.setItem i (g.items i) = g := by
  simp [setItem]

theorem addEffect_zero : g.addEffect {} = g := by
  simp [addEffect]

theorem startDecay_of_rests (h : (g.items i).Rests w) :
    g.startDecay w i = g.setItem i ((g.items i).started w) := by
  unfold startDecay Item.started
  by_cases hdecay : (g.items i).canDecay w.decayTypes
  · rw [hdecay]
    by_cases hstate : (g.items i).decayState = .decaying
    · simp [hstate, setItem_self]
    · simp [hstate, h hdecay, modifyItem]
  · rw [Bool.not_eq_true] at hdecay
    simp [hdecay, setItem_self]

theorem equipItem_of_puts (hoff : g.inventoryAbilities s = false)
    (hputs : puts w g.bonus (g.items i).id s) :
    g.onPlayerEquip w i s =
      if (w.types (g.items i).id).transformEquipTo ≠ 0 then
        g.push [.transformItem i (w.types (g.items i).id).transformEquipTo none true,
          .add (w.effect (g.items i))]
      else (g.setItemAbility s true).addEffect (w.effect (g.items i)) := by
  unfold puts at hputs
  unfold onPlayerEquip equipItem
  cases hevent : getEvent (w.equipEvents (g.items i).id) s with
  | none =>
    rw [hevent] at hputs
    cases hputs
  | some event =>
    rw [hevent] at hputs
    have hwields : w.wields g.bonus event := hputs
    simp [hoff, hwields]

theorem equipItem_of_not_puts (hputs : puts w g.bonus (g.items i).id s = false) :
    g.onPlayerEquip w i s = g := by
  unfold puts at hputs
  unfold onPlayerEquip equipItem
  cases hevent : getEvent (w.equipEvents (g.items i).id) s with
  | none => rfl
  | some event =>
    rw [hevent] at hputs
    have hwields : w.wields g.bonus event = false := hputs
    simp [hwields]

@[simp] theorem started_id {item : Item} : (item.started w).id = item.id := by
  unfold Item.started
  split <;> rfl

@[simp] theorem started_imbuements {item : Item} :
    (item.started w).imbuements = item.imbuements := by
  unfold Item.started
  split <;> rfl

theorem login_none (hs : g.inventory s = none) :
    { g with calls := .login s :: g.calls }.makeCall w = g := by
  unfold makeCall call
  dsimp only
  rw [hs]

theorem login_some (hs : g.inventory s = some i) (hrests : (g.items i).Rests w) :
    (makeCall w)^[3] { g with calls := .login s :: g.calls } =
      (g.setItem i ((g.items i).started w)).onPlayerEquip w i s := by
  have hlogin : { g with calls := .login s :: g.calls }.makeCall w =
      { g with calls := .startDecay i :: .onPlayerEquip i s :: g.calls } := by
    unfold makeCall call
    dsimp only
    rw [hs]
    rfl
  have hdecay : { g with calls := .startDecay i :: .onPlayerEquip i s :: g.calls }.makeCall w =
      { g.setItem i ((g.items i).started w) with calls := .onPlayerEquip i s :: g.calls } :=
    startDecay_of_rests (g := { g with calls := .onPlayerEquip i s :: g.calls }) hrests
  rw [Function.iterate_succ_apply, hlogin, Function.iterate_succ_apply, hdecay]
  rfl

end Game

/-- An item that is created in its other form turns into the one it had and is put on. -/
structure Turns (w : World) (bonus : Bonus) (s : Slot) (id : UInt16) (loaded : Item) : Prop where
  transformEquipTo : (w.types loaded.id).transformEquipTo = id
  ne_zero : id ≠ 0
  effect : w.effect loaded = {}
  inPlace : w.transformation (loaded.started w) id none = .inPlace (some id) none
  puts : puts w bonus id s
  stays : (w.types id).transformEquipTo = 0
  rests : ((loaded.started w).turned w id).Rests w

namespace Game

variable {w : World} {g : Game} {i : ℕ} {s : Slot}

theorem turned_id {item : Item} {id : UInt16} : (item.turned w id).id = id := by
  unfold Item.turned World.changed
  split <;> exact Decay.Item.setID_id

theorem turned_imbuements {item : Item} {id : UInt16} :
    (item.turned w id).imbuements = item.imbuements := by
  unfold Item.turned World.changed
  split <;> rfl

theorem login_off (hs : g.inventory s = some i) (hrests : (g.items i).Rests w)
    (hputs : puts w g.bonus (g.items i).id s = false) :
    (makeCall w)^[3] { g with calls := .login s :: g.calls } =
      g.setItem i ((g.items i).started w) := by
  rw [login_some hs hrests]
  refine equipItem_of_not_puts ?_
  rw [setItem_items, Function.update_self, started_id]
  exact hputs

theorem login_on (hs : g.inventory s = some i) (hoff : g.inventoryAbilities s = false)
    (hrests : (g.items i).Rests w) (hputs : puts w g.bonus (g.items i).id s)
    (hstays : (w.types (g.items i).id).transformEquipTo = 0) :
    (makeCall w)^[3] { g with calls := .login s :: g.calls } =
      ((g.setItem i ((g.items i).started w)).setItemAbility s true).addEffect
        (w.effect (g.items i)) := by
  have hself : (g.setItem i ((g.items i).started w)).items i = (g.items i).started w :=
    Function.update_self _ _ _
  have hputs : puts w (g.setItem i ((g.items i).started w)).bonus
      ((g.setItem i ((g.items i).started w)).items i).id s := by
    rw [hself, started_id]
    exact hputs
  rw [login_some hs hrests, equipItem_of_puts (g := g.setItem i ((g.items i).started w)) hoff hputs,
    hself, started_id, if_neg (not_not.mpr hstays), effect_congr started_id started_imbuements]

theorem onPlayerDeEquip_of_off (hoff : g.inventoryAbilities s = false) :
    g.onPlayerDeEquip w i s = g := by
  unfold onPlayerDeEquip deEquipItem
  cases getEvent (w.deEquipEvents (g.items i).id) s with
  | none => rfl
  | some event => simp [hoff]

/-- The nested calls of an item that turns, one after the other. -/
theorem login_turn {id : UInt16} (hs : g.inventory s = some i)
    (hindex : ∀ t, g.inventory t = some i → t = s) (hoff : g.inventoryAbilities s = false)
    (hrests : (g.items i).Rests w) (hputs : puts w g.bonus (g.items i).id s)
    (hturns : Turns w g.bonus s id (g.items i)) :
    (makeCall w)^[7] { g with calls := .login s :: g.calls } =
      ((g.setItem i (((g.items i).started w).turned w id |>.started w)).setItemAbility s
        true).addEffect (w.effect (((g.items i).started w).turned w id)) := by
  have hself : (g.setItem i ((g.items i).started w)).items i = (g.items i).started w :=
    Function.update_self _ _ _
  have hequip : (makeCall w)^[3] { g with calls := .login s :: g.calls } =
      (g.setItem i ((g.items i).started w)).push [.transformItem i id none true, .add {}] := by
    have hputs : puts w (g.setItem i ((g.items i).started w)).bonus
        ((g.setItem i ((g.items i).started w)).items i).id s := by
      rw [hself, started_id]
      exact hputs
    rw [login_some hs hrests,
      equipItem_of_puts (g := g.setItem i ((g.items i).started w)) hoff hputs, hself, started_id,
      hturns.transformEquipTo, if_pos hturns.ne_zero,
      effect_congr started_id started_imbuements, hturns.effect]
  have hthing : g.getThingIndex i = some s := by
    obtain ⟨t, ht⟩ := Option.isSome_iff_exists.mp (getThingIndex_isSome hs)
    rw [ht, hindex t (inventory_of_getThingIndex ht)]
  have htransform : ((g.setItem i ((g.items i).started w)).push
      [.transformItem i id none true, .add {}]).makeCall w =
      (g.setItem i ((g.items i).started w)).push
        [.updateThing i (some s) (some id) none ((g.items i).started w).getDuration,
          .startDecay i, .add {}] := by
    change ((g.setItem i ((g.items i).started w)).push [.add {}]).transformItem w i id none true = _
    unfold transformItem
    rw [show ((g.setItem i ((g.items i).started w)).push [.add {}]).items i =
      (g.items i).started w from hself, hturns.inPlace]
    rw [show ((g.setItem i ((g.items i).started w)).push [.add {}]).getThingIndex i = some s from
      hthing]
    exact onPlayerDeEquip_of_off hoff
  have hupdate : ((g.setItem i ((g.items i).started w)).push
        [.updateThing i (some s) (some id) none ((g.items i).started w).getDuration,
          .startDecay i, .add {}]).makeCall w =
      (((g.setItem i (((g.items i).started w).turned w id)).setItemAbility s true).addEffect
        (w.effect (((g.items i).started w).turned w id))).push [.startDecay i, .add {}] := by
    change ((g.setItem i ((g.items i).started w)).push [.startDecay i, .add {}]).updateThing w i
      (some s) (some id) none ((g.items i).started w).getDuration = _
    have hupdated : ((g.setItem i ((g.items i).started w)).push
        [.startDecay i, .add {}]).updatedItem w i (some s) (some id) none
          ((g.items i).started w).getDuration = ((g.items i).started w).turned w id := by
      unfold updatedItem Item.turned
      rw [show ((g.setItem i ((g.items i).started w)).push
        [.startDecay i, .add {}]).getThingIndex i = some s from hthing]
      rw [show ((g.setItem i ((g.items i).started w)).push
        [.startDecay i, .add {}]).items i = (g.items i).started w from hself]
      rfl
    have hitems : (((g.setItem i ((g.items i).started w)).push [.startDecay i, .add {}]).setItem i
        (((g.items i).started w).turned w id)) =
        (g.setItem i (((g.items i).started w).turned w id)).push [.startDecay i, .add {}] := by
      simp [push, setItem]
    unfold updateThing
    rw [hupdated, hitems]
    change ((g.setItem i (((g.items i).started w).turned w id)).push
      [.startDecay i, .add {}]).onPlayerEquip w i s = _
    have hturned : ((g.setItem i (((g.items i).started w).turned w id)).push
        [.startDecay i, .add {}]).items i = ((g.items i).started w).turned w id :=
      Function.update_self _ _ _
    rw [equipItem_of_puts (g := (g.setItem i (((g.items i).started w).turned w id)).push
        [.startDecay i, .add {}]) hoff (by rw [hturned, turned_id]; exact hturns.puts), hturned,
      turned_id, if_neg (not_not.mpr hturns.stays)]
    rfl
  have hstart : ((((g.setItem i (((g.items i).started w).turned w id)).setItemAbility s
        true).addEffect (w.effect (((g.items i).started w).turned w id))).push
        [.startDecay i, .add {}]).makeCall w =
      (((g.setItem i (((g.items i).started w).turned w id |>.started w)).setItemAbility s
        true).addEffect (w.effect (((g.items i).started w).turned w id))).push [.add {}] := by
    have hturned : ((((g.setItem i (((g.items i).started w).turned w id)).setItemAbility s
        true).addEffect (w.effect (((g.items i).started w).turned w id))).push
        [.add {}]).items i = ((g.items i).started w).turned w id := Function.update_self _ _ _
    refine (startDecay_of_rests (g := (((g.setItem i (((g.items i).started w).turned w
      id)).setItemAbility s true).addEffect (w.effect (((g.items i).started w).turned w id))).push
        [.add {}]) (by rw [hturned]; exact hturns.rests)).trans ?_
    rw [hturned]
    simp [push, setItem, setItemAbility, addEffect]
  have hadd (g : Game) : (g.push [.add {}]).makeCall w = g := addEffect_zero
  rw [show 7 = 4 + 3 from rfl, Function.iterate_add_apply, hequip, Function.iterate_succ_apply,
    htransform, Function.iterate_succ_apply, hupdate, Function.iterate_succ_apply, hstart,
    Function.iterate_succ_apply, hadd, Function.iterate_zero_apply]

end Game

/-- A loaded item does not decay, and it is put on, if need be in another form first, exactly if it
was. An item that is not loaded was not put on. -/
def ComesBackAs (w : World) (bonus : Bonus) (s : Slot) (enabled : Bool) (item : Item) :
    Option Item → Prop
  | none => enabled = false
  | some loaded => loaded.Rests w ∧
      if enabled then
        puts w bonus loaded.id s ∧
          (loaded.id = item.id ∧ (w.types item.id).transformEquipTo = 0 ∨
            Turns w bonus s item.id loaded)
      else puts w bonus loaded.id s = false

/-- The login leaves the slot of an item as it was before. -/
def ComesBack (w : World) (bonus : Bonus) (s : Slot) (enabled : Bool) (item : Item) : Prop :=
  ComesBackAs w bonus s enabled item (loadItem w item)

/-- All slots come back, one after the other, with the bonuses of those before. -/
def AllComeBack (w : World) (b : Game) (bonus : Bonus) : List Slot → Prop
  | [] => True
  | s :: l =>
    (∀ i ∈ b.inventory s, ComesBack w bonus s (b.inventoryAbilities s) (b.items i)) ∧
      AllComeBack w b (bonus + (b.worn w s).bonus) l

section Decidable

variable (w : World) (bonus : Bonus) (s : Slot) (item : Item)

instance : Decidable (item.Rests w) :=
  inferInstanceAs (Decidable (item.canDecay w.decayTypes → item.getDuration ≠ 0))

instance (id : UInt16) : Decidable (Turns w bonus s id item) :=
  decidable_of_iff ((w.types item.id).transformEquipTo = id ∧ id ≠ 0 ∧ w.effect item = {} ∧
      w.transformation (item.started w) id none = .inPlace (some id) none ∧ puts w bonus id s ∧
      (w.types id).transformEquipTo = 0 ∧ ((item.started w).turned w id).Rests w)
    ⟨fun ⟨h₁, h₂, h₃, h₄, h₅, h₆, h₇⟩ => ⟨h₁, h₂, h₃, h₄, h₅, h₆, h₇⟩,
      fun ⟨h₁, h₂, h₃, h₄, h₅, h₆, h₇⟩ => ⟨h₁, h₂, h₃, h₄, h₅, h₆, h₇⟩⟩

instance (enabled : Bool) (o : Option Item) : Decidable (ComesBackAs w bonus s enabled item o) :=
  match o with
  | none => inferInstanceAs (Decidable (enabled = false))
  | some loaded => inferInstanceAs (Decidable (loaded.Rests w ∧
      if enabled then
        puts w bonus loaded.id s ∧
          (loaded.id = item.id ∧ (w.types item.id).transformEquipTo = 0 ∨
            Turns w bonus s item.id loaded)
      else puts w bonus loaded.id s = false))

instance (enabled : Bool) : Decidable (ComesBack w bonus s enabled item) :=
  inferInstanceAs (Decidable (ComesBackAs w bonus s enabled item (loadItem w item)))

instance instDecidableAllComeBack (b : Game) (bonus : Bonus) (l : List Slot) :
    Decidable (AllComeBack w b bonus l) :=
  match l with
  | [] => isTrue trivial
  | s :: l =>
    have : Decidable (AllComeBack w b (bonus + (b.worn w s).bonus) l) :=
      instDecidableAllComeBack b (bonus + (b.worn w s).bonus) l
    inferInstanceAs (Decidable
      ((∀ i ∈ b.inventory s, ComesBack w bonus s (b.inventoryAbilities s) (b.items i)) ∧
        AllComeBack w b (bonus + (b.worn w s).bonus) l))

end Decidable

namespace Game

variable {w : World} {g g' b : Game} {i : ℕ} {s : Slot}

/-- What the login has made of a slot that adds an effect. -/
structure LoggedIn (w : World) (g g' : Game) (i : ℕ) (s : Slot) (e : Effect) : Prop where
  calls : g'.calls = g.calls
  inventory : g'.inventory = g.inventory
  items : ∀ j ≠ i, g'.items j = g.items j
  inventoryAbilities : ∀ t ≠ s, g'.inventoryAbilities t = g.inventoryAbilities t
  bonus : g'.bonus = g.bonus + e.bonus
  capacity : g'.capacity = g.capacity + e.capacity
  worn : g'.worn w s = e

theorem loadItem_imbuements {item loaded : Item} (h : loadItem w item = some loaded) :
    loaded.imbuements = item.imbuements := by
  unfold loadItem at h
  split at h
  · cases h
  · cases h
    rfl

theorem loggedIn_off {item : Item} (hoff : g.inventoryAbilities s = false) :
    LoggedIn w g (g.setItem i item) i s {} :=
  ⟨rfl, rfl, fun _ hj => Function.update_of_ne hj _ _, fun _ _ => rfl, (add_zero _).symm,
    (UInt32.add_zero _).symm, worn_of_disabled hoff⟩

theorem loggedIn_on {item : Item} {e : Effect} (hs : g.inventory s = some i)
    (he : w.effect item = e) :
    LoggedIn w g (((g.setItem i item).setItemAbility s true).addEffect e) i s e := by
  refine ⟨rfl, rfl, fun _ hj => Function.update_of_ne hj _ _,
    fun t ht => setItemAbility_of_ne ht, rfl, rfl, ?_⟩
  have hon : (((g.setItem i item).setItemAbility s true).addEffect e).inventoryAbilities s =
      true := setItemAbility_self
  have hself : (((g.setItem i item).setItemAbility s true).addEffect e).items i = item :=
    Function.update_self _ _ _
  rw [worn_of_enabled (i := i) hon hs, hself, he]

/-- A turn of the loop. -/
theorem login_slot {item : Item} (hoff : g.inventoryAbilities s = false)
    (hs : g.inventory s = (loadItem w item).map fun _ => i)
    (hitem : ∀ loaded, loadItem w item = some loaded → g.items i = loaded)
    (hindex : ∀ t, g.inventory t = some i → t = s) {enabled : Bool}
    (hback : ComesBack w g.bonus s enabled item) :
    ∃ k ≤ 7, LoggedIn w g ((makeCall w)^[k] { g with calls := .login s :: g.calls }) i s
      (if enabled then w.effect item else {}) := by
  unfold ComesBack ComesBackAs at hback
  cases hload : loadItem w item with
  | none =>
    rw [hload] at hs hback
    have hnone : enabled = false := hback
    refine ⟨1, by omega, ?_⟩
    rw [Function.iterate_one, login_none hs, hnone]
    have hself := @loggedIn_off w g i s (g.items i) hoff
    rwa [setItem_self] at hself
  | some loaded =>
    rw [hload] at hs hback
    obtain ⟨hrests, hputs⟩ := hback
    have hloaded := hitem loaded hload
    rw [← hloaded] at hrests hputs
    have hs : g.inventory s = some i := hs
    have himbuements : (g.items i).imbuements = item.imbuements := by
      rw [hloaded, loadItem_imbuements hload]
    cases enabled with
    | false =>
      rw [if_neg Bool.false_ne_true] at hputs
      refine ⟨3, by omega, ?_⟩
      rw [login_off hs hrests hputs]
      exact loggedIn_off hoff
    | true =>
      rw [if_pos rfl] at hputs
      rw [if_pos rfl]
      rcases hputs with ⟨hputs, ⟨hid, hstays⟩ | hturns⟩
      · refine ⟨3, by omega, ?_⟩
        have heffect : w.effect (g.items i) = w.effect item := effect_congr hid himbuements
        rw [← hid] at hstays
        rw [login_on hs hoff hrests hputs hstays, heffect]
        exact loggedIn_on hs ((effect_congr started_id started_imbuements).trans heffect)
      · refine ⟨7, le_rfl, ?_⟩
        have heffect : w.effect (((g.items i).started w).turned w item.id) = w.effect item :=
          effect_congr turned_id ((turned_imbuements.trans started_imbuements).trans himbuements)
        rw [login_turn hs hindex hoff hrests hputs hturns, heffect]
        exact loggedIn_on hs ((effect_congr started_id started_imbuements).trans heffect)

/-- What is loaded into a slot. -/
structure Loaded (w : World) (b g : Game) (s : Slot) : Prop where
  inventoryAbilities : g.inventoryAbilities s = false
  inventory : g.inventory s =
    ((b.inventory s).bind fun i => loadItem w (b.items i)).map fun _ => s.index
  items : ∀ i loaded, b.inventory s = some i → loadItem w (b.items i) = some loaded →
    g.items s.index = loaded

theorem index_injective : ∀ s t : Slot, s.index = t.index → s = t := by
  decide

/-- A turn of the loop gives the slot the effect it had. -/
theorem login_loaded (hindex : ∀ t i, g.inventory t = some i → i = t.index)
    (hloaded : Loaded w b g s)
    (hback : ∀ i, b.inventory s = some i →
      ComesBack w g.bonus s (b.inventoryAbilities s) (b.items i)) :
    ∃ k ≤ 7, LoggedIn w g ((makeCall w)^[k] { g with calls := .login s :: g.calls }) s.index s
      (b.worn w s) := by
  have hinventory := hloaded.inventory
  cases hs : b.inventory s with
  | none =>
    rw [hs] at hinventory
    have hworn : b.worn w s = {} := by simp [worn, hs]
    refine ⟨1, by omega, ?_⟩
    rw [Function.iterate_one, login_none hinventory, hworn]
    have hself := @loggedIn_off w g s.index s (g.items s.index)
      hloaded.inventoryAbilities
    rwa [setItem_self] at hself
  | some i =>
    rw [hs] at hinventory
    have hworn : b.worn w s = if b.inventoryAbilities s then w.effect (b.items i) else {} := by
      simp [worn, hs]
    rw [hworn]
    exact login_slot hloaded.inventoryAbilities hinventory
      (fun loaded => hloaded.items i loaded hs)
      (fun t ht => index_injective t s (hindex t _ ht).symm) (hback i hs)

theorem LoggedIn.loaded {e : Effect} {t : Slot} (h : LoggedIn w g g' s.index s e) (hts : t ≠ s)
    (hloaded : Loaded w b g t) : Loaded w b g' t := by
  refine ⟨?_, ?_, fun i loaded hi hload => ?_⟩
  · rw [h.inventoryAbilities t hts]
    exact hloaded.inventoryAbilities
  · rw [h.inventory]
    exact hloaded.inventory
  · rw [h.items _ fun heq => hts (index_injective t s heq)]
    exact hloaded.items i loaded hi hload

theorem LoggedIn.worn_of_ne {e : Effect} {t : Slot} (h : LoggedIn w g g' s.index s e)
    (hindex : ∀ t i, g.inventory t = some i → i = t.index) (hts : t ≠ s) :
    g'.worn w t = g.worn w t := by
  refine worn_congr (by rw [h.inventory]) (h.inventoryAbilities t hts) fun i hi _ => ?_
  rw [h.items i fun heq => hts (index_injective t s ((hindex t i hi).symm.trans heq))]

/-- The loop puts on what was worn before. -/
theorem login_all (l : List Slot) (hl : l.Nodup)
    (hindex : ∀ t i, g.inventory t = some i → i = t.index)
    (hloaded : ∀ s ∈ l, Loaded w b g s) (hback : AllComeBack w b g.bonus l) :
    ∃ k ≤ 7 * l.length,
      let f := (makeCall w)^[k] { g with calls := l.map .login }
      f.calls = [] ∧ f.bonus = g.bonus + (l.map fun s => (b.worn w s).bonus).sum ∧
        f.capacity = g.capacity + (l.map fun s => (b.worn w s).capacity).sum ∧
        (∀ s ∈ l, f.worn w s = b.worn w s) ∧ ∀ s ∉ l, f.worn w s = g.worn w s := by
  induction l generalizing g with
  | nil =>
    refine ⟨0, le_rfl, rfl, ?_, ?_, fun s hs => ?_, fun s _ => rfl⟩
    · simp
    · simp
    · cases hs
  | cons s l ih =>
    obtain ⟨hs, hl⟩ := List.nodup_cons.mp hl
    obtain ⟨k, hk, hturn⟩ := login_loaded (g := { g with calls := l.map .login }) hindex
      ⟨(hloaded s List.mem_cons_self).inventoryAbilities,
        (hloaded s List.mem_cons_self).inventory, (hloaded s List.mem_cons_self).items⟩ hback.1
    set g₁ := (makeCall w)^[k] { g with calls := .login s :: l.map .login } with hg₁
    have hrest : AllComeBack w b g₁.bonus l := by
      rw [hturn.bonus]
      exact hback.2
    have hindex₁ (t : Slot) (i : ℕ) (ht : g₁.inventory t = some i) : i = t.index := by
      rw [hturn.inventory] at ht
      exact hindex t i ht
    have hloaded₁ (t : Slot) (ht : t ∈ l) : Loaded w b g₁ t := by
      have hts : t ≠ s := by
        rintro rfl
        exact hs ht
      have hbefore := hloaded t (List.mem_cons_of_mem s ht)
      exact hturn.loaded hts ⟨hbefore.inventoryAbilities, hbefore.inventory, hbefore.items⟩
    obtain ⟨k', hk', hcalls, hbonus, hcapacity, hin, hout⟩ :=
      ih (g := g₁) hl hindex₁ hloaded₁ hrest
    have hcalls₁ : g₁.calls = l.map .login := hturn.calls
    have hreturn : { g₁ with calls := l.map .login } = g₁ := by
      rw [← hcalls₁]
    simp only [hreturn] at hcalls hbonus hcapacity hin hout
    refine ⟨k' + k, by rw [List.length_cons]; omega, ?_⟩
    rw [List.map_cons, Function.iterate_add_apply, ← hg₁]
    refine ⟨hcalls, ?_, ?_, fun t ht => ?_, fun t ht => ?_⟩
    · rw [hbonus, hturn.bonus, List.map_cons, List.sum_cons, add_assoc]
    · rw [hcapacity, hturn.capacity, List.map_cons, List.sum_cons, UInt32.add_assoc]
    · rcases List.mem_cons.mp ht with rfl | ht
      · exact (hout t hs).trans hturn.worn
      · exact hin t ht
    · rw [List.mem_cons, not_or] at ht
      exact (hout t ht.2).trans (hturn.worn_of_ne hindex ht.1)

end Game

namespace Character

variable {w : World} {vocationSpeed : UInt16 → UInt32} {c : Character} {fuel : ℕ}

def world (w : World) (c : Character) : World := { w with player := c.player }

/-- What the worn imbuements add to the capacity. -/
def wornCapacity (w : World) (c : Character) : UInt32 :=
  (Slot.all.map fun s => (c.game.worn (c.world w) s).capacity).sum

/-- A player whose counters are those of the equipment and whose speed is that of the level. -/
structure Settled (w : World) (vocationSpeed : UInt16 → UInt32) (c : Character) : Prop where
  level : 0 < c.player.level
  baseSpeed : c.baseSpeed = updateBaseSpeed vocationSpeed c.player
  bonus : c.game.bonus = ∑ s, (c.game.worn (c.world w) s).bonus

/-- The login ends and puts on again what was worn. -/
def PutsOnAgain (w : World) (c : Character) (fuel : ℕ) : Prop :=
  7 * Slot.all.length ≤ fuel ∧ AllComeBack (c.world w) c.game 0 Slot.all

instance (w : World) (c : Character) (fuel : ℕ) : Decidable (c.PutsOnAgain w fuel) :=
  inferInstanceAs (Decidable
    (7 * Slot.all.length ≤ fuel ∧ AllComeBack (c.world w) c.game 0 Slot.all))

theorem loadPlayer_savePlayer (h : 0 < c.player.level) :
    loadPlayer (savePlayer c) = c.player := by
  have hmax : max 1 c.player.level = c.player.level := by
    refine if_pos (UInt32.le_iff_toNat_le.mpr ?_)
    exact UInt32.lt_iff_toNat_lt.mp h
  simp only [loadPlayer, savePlayer, hmax]

theorem all_index : ∀ s : Slot, Slot.all[s.index]? = some s := by
  decide

theorem loaded_loadGame (s : Slot) :
    Game.Loaded (c.world w) c.game (loadGame w (savePlayer c)) s := by
  have hloaded : loadedItem w (savePlayer c) s =
      (c.game.inventory s).bind fun i => loadItem w (c.game.items i) := by
    change ((c.game.inventory s).map c.game.items).bind (loadItem w) = _
    cases c.game.inventory s <;> rfl
  refine ⟨rfl, ?_, fun i loaded hi hload => ?_⟩
  · change (loadedItem w (savePlayer c) s).map _ = _
    rw [hloaded]
    rfl
  · change ((Slot.all[s.index]?).bind (loadedItem w (savePlayer c))).getD _ = _
    have hload : loadItem w (c.game.items i) = some loaded := hload
    rw [all_index, Option.bind_some, hloaded, hi, Option.bind_some, hload]
    rfl

theorem makeCalls_of_done {g : Game} (h : g.calls = []) (n : ℕ) : (Game.makeCall w)^[n] g = g := by
  refine Function.iterate_fixed ?_ n
  unfold Game.makeCall
  rw [h]

/-- What a cycle leaves and what it changes. -/
structure Cycled (w : World) (c c' : Character) : Prop where
  player : c'.player = c.player
  baseSpeed : c'.baseSpeed = c.baseSpeed
  bonus : c'.game.bonus = c.game.bonus
  capacity : c'.game.capacity = c.game.capacity / 100 * 100 + c.wornCapacity w
  worn : ∀ s, c'.game.worn (c.world w) s = c.game.worn (c.world w) s

theorem cycle_spec (hsettled : c.Settled w vocationSpeed) (hagain : c.PutsOnAgain w fuel) :
    Cycled w c (cycle w vocationSpeed c fuel) := by
  obtain ⟨hfuel, hback⟩ := hagain
  have hplayer := loadPlayer_savePlayer hsettled.level
  have hindex (t : Slot) (i : ℕ) (ht : (loadGame w (savePlayer c)).inventory t = some i) :
      i = t.index := by
    obtain ⟨-, -, hi⟩ := Option.map_eq_some_iff.mp ht
    exact hi.symm
  obtain ⟨k, hk, hcalls, hbonus, hcapacity, hworn, -⟩ :=
    Game.login_all (w := c.world w) (b := c.game) (g := loadGame w (savePlayer c)) Slot.all
      (by decide) hindex (fun s _ => loaded_loadGame s) hback
  have hgame : (cycle w vocationSpeed c fuel).game =
      (Game.makeCall (c.world w))^[k] (loadGame w (savePlayer c)) := by
    unfold cycle makeCalls
    dsimp only
    rw [hplayer, ← Nat.sub_add_cancel (hk.trans hfuel), Function.iterate_add_apply]
    exact makeCalls_of_done hcalls _
  refine ⟨hplayer, ?_, ?_, ?_, fun s => ?_⟩
  · change updateBaseSpeed vocationSpeed (loadPlayer (savePlayer c)) = _
    rw [hplayer, hsettled.baseSpeed]
  · rw [hgame, hsettled.bonus]
    refine hbonus.trans ?_
    change 0 + _ = _
    rw [zero_add]
    rfl
  · rw [hgame]
    exact hcapacity
  · rw [hgame]
    exact hworn s (Fintype.complete s)

theorem Cycled.world {c' : Character} (h : Cycled w c c') : c'.world w = c.world w := by
  rw [Character.world, h.player]
  rfl

theorem Cycled.wornCapacity {c' : Character} (h : Cycled w c c') :
    c'.wornCapacity w = c.wornCapacity w := by
  simp only [Character.wornCapacity, h.world, h.worn]

theorem Cycled.settled {c' : Character} (h : Cycled w c c') (hsettled : c.Settled w vocationSpeed) :
    c'.Settled w vocationSpeed := by
  refine ⟨?_, ?_, ?_⟩
  · rw [h.player]
    exact hsettled.level
  · rw [h.baseSpeed, h.player]
    exact hsettled.baseSpeed
  · simp only [h.bonus, h.world, h.worn]
    exact hsettled.bonus

theorem Cycled.values_iff {c' : Character} (h : Cycled w c c') :
    c'.values = c.values ↔ c.wornCapacity w = c.game.capacity % 100 := by
  have hmaxHealth : c'.getMaxHealth = c.getMaxHealth := by
    simp only [getMaxHealth, h.player, h.bonus]
  have hmaxMana : c'.getMaxMana = c.getMaxMana := by
    simp only [getMaxMana, h.player, h.bonus]
  have hmagicLevel : c'.getMagicLevel = c.getMagicLevel := by
    simp only [getMagicLevel, h.player, h.bonus]
  have hskillLevel : c'.getSkillLevel = c.getSkillLevel := by
    funext i
    simp only [getSkillLevel, h.player, h.bonus]
  have hspeed : c'.getSpeed = c.getSpeed := by
    simp only [getSpeed, h.baseSpeed, h.bonus]
  have hvalues : c'.values = c.values ↔ c'.game.capacity = c.game.capacity := by
    rw [Values.ext_iff]
    exact and_iff_left ⟨hmaxHealth, hmaxMana, hmagicLevel, hskillLevel, hspeed⟩
  have hsplit : c.game.capacity / 100 * 100 + c.game.capacity % 100 = c.game.capacity :=
    UInt32.toNat_inj.mp (by
      have hdiv := Nat.div_add_mod' c.game.capacity.toNat 100
      have hlt := c.game.capacity.toNat_lt
      simp only [UInt32.toNat_add, UInt32.toNat_mul, UInt32.toNat_div, UInt32.toNat_mod]
      change ((_ / 100 * 100) % _ + _ % 100) % _ = _
      omega)
  rw [hvalues, h.capacity]
  constructor
  · intro heq
    exact (UInt32.add_right_inj _).mp (heq.trans hsplit.symm)
  · intro heq
    rw [heq, hsplit]

/-- After any number of cycles in which the login puts on again what was worn, a settled player has
the values from before, exactly if the worn imbuements add to the capacity what the row cuts off. -/
theorem cycles_keep_iff (hsettled : c.Settled w vocationSpeed) {fuels : List ℕ}
    (hne : fuels ≠ [])
    (hagain : Run.Steps (cycle w vocationSpeed) (PutsOnAgain w) c fuels) :
    (∀ n, ((fuels.take n).foldl (cycle w vocationSpeed) c).values = c.values) ↔
      c.wornCapacity w = c.game.capacity % 100 := by
  constructor
  · intro hall
    cases fuels with
    | nil => exact absurd rfl hne
    | cons fuel fuels => exact (cycle_spec hsettled hagain.1).values_iff.mp (hall 1)
  · intro hcapacity n
    have hsteps := (Run.steps_append.mp ((List.take_append_drop n fuels).symm ▸ hagain)).1
    refine (Run.invariant (P := fun c' => c'.Settled w vocationSpeed ∧ c'.values = c.values ∧
      c'.wornCapacity w = c.wornCapacity w) ?_ ⟨hsettled, rfl, rfl⟩ hsteps).2.1
    rintro c' fuel ⟨hsettled, hvalues, hworn⟩ hagain
    have hcycled := cycle_spec hsettled hagain
    have hsame : c'.game.capacity = c.game.capacity := congrArg Values.capacity hvalues
    refine ⟨hcycled.settled hsettled, Eq.trans ?_ hvalues, hcycled.wornCapacity.trans hworn⟩
    rw [hcycled.values_iff, hworn, hcapacity, hsame]

end Character

namespace Character

/-- A player with the sword ring on, which is loaded in its other form. -/
def ringBearer : Character where
  player := Game.armoury.player
  baseSpeed := 220 + 2 * 119
  game := (Game.putOn 0 .ring).foldl (Game.step Game.armoury) Game.carrier

theorem ringBearer_settled : ringBearer.Settled Game.armoury fun _ => 220 :=
  ⟨by decide, by decide, by decide⟩

theorem ringBearer_keeps :
    (∀ n, ((([77, 77, 77] : List ℕ).take n).foldl (cycle Game.armoury fun _ => 220)
        ringBearer).values = ringBearer.values) ↔
      ringBearer.wornCapacity Game.armoury = ringBearer.game.capacity % 100 :=
  cycles_keep_iff ringBearer_settled (by decide) (by decide +kernel)

/-- The imbuement with the id 5 adds 300 to the capacity. -/
def tailor : World where
  types
    | 1988 => { imbuingSlots := 1 }
    | _ => {}
  getImbuement id := if id = 5 then { capacity := 300 } else {}
  equipEvents
    | 1988 => [{ slot := Slot.backpack.slotp }]
    | _ => []
  deEquipEvents
    | 1988 => [{ slot := Slot.backpack.slotp }]
    | _ => []
  percentOf _ _ := 0
  player := Game.armoury.player

/-- A player who has put on an imbued backpack. -/
def traveller : Character where
  player := tailor.player
  baseSpeed := 220 + 2 * 119
  game := (Game.putOn 0 .backpack).foldl (Game.step tailor)
    { Game.carrier with
      items := fun _ => { id := 1988, imbuements := [(7200 : Imbuing.Slot) <<< 8 ||| 5] } }

/-- Each cycle adds the capacity of the imbuement once more. -/
theorem capacity_grows :
    let cycled := fun n => (List.replicate n 77).foldl (cycle tailor fun _ => 220) traveller
    traveller.PutsOnAgain tailor 77 ∧ traveller.getCapacity = 40300 ∧
      (cycled 1).getCapacity = 40600 ∧ (cycled 2).getCapacity = 40900 := by
  decide +kernel

end Character

end OTServBR.Equipment
