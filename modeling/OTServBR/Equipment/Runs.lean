import OTServBR.Equipment.Bonus

/-! # Runs with equipment

Each step of a run has a condition on the state before it: what is taken off was
put on, what is put on lies in its slot, and what decays gives nothing. In a run
whose steps all meet it, the player has the bonuses of what is worn whenever no
call is left to be made.
-/

namespace OTServBR.Equipment

namespace Game

variable {w : World} {g g' : Game} {i : ℕ} {s : Slot} {calls : List Call}

/-- A transformation takes off what can be taken off and puts on what can be put on. -/
def MayBecome (w : World) (g : Game) (i : ℕ) : Transformation → Prop
  | .nothing | .unchanged | .again _ => True
  | .anew => g.MayLeave w i
  | .removed => (g.items i).hasParent → (g.items i).canRemove → g.MayLeave w i
  | .replaced id count _ => ∀ s, g.inventory s = some i →
      if g.inventoryAbilities s then g.MayLeave w i
      else g.MayEquip w (w.create id count (g.items i).carried) s True
  | .inPlace _ _ => g.MayChange w i

/-- An item that the player has gives no skills and stats when it decays to another. -/
def MayDecay (w : World) (g : Game) (i : ℕ) : Prop :=
  if (w.types (g.items i).id).decayTo ≠ 0 then
    (g.getThingIndex i).isSome || (g.items i).carried →
      decayBonus w (w.types (g.items i).id) = 0
  else (g.items i).hasParent → (g.items i).canRemove → g.MayLeave w i

/-- The effect of a worn item that takes part stays. -/
def KeepsEffect (w : World) (g : Game) (i : ℕ) (item : Item) : Prop :=
  ∀ s, g.inventory s = some i → g.inventoryAbilities s → w.effect item = w.effect (g.items i)

def MayCall (w : World) (g : Game) : Call → Prop
  | .transformItem i newId newCount _ =>
    g.MayBecome w i (w.transformation (g.items i) newId newCount)
  | .updateThing i slot itemId count duration =>
    g.KeepsEffect w i (g.updatedItem w i slot itemId count duration) ∧
      ∀ s ∈ slot, g.MayEquip w (g.updatedItem w i slot itemId count duration) s
        (g.inventory s = some i)
  | .setID i newId newCount => g.KeepsEffect w i (w.changed (g.items i) newId newCount)
  -- the new item has not switched the slot on
  | .release i s => g.inventoryAbilities s → getEvent (w.deEquipEvents (g.items i).id) s = none
  | .startDecay i => (g.items i).canDecay w.decayTypes → (g.items i).decayState ≠ .decaying →
      (g.items i).getDuration = 0 → g.MayDecay w i
  | .postAddNotification i => ∀ s ∈ g.getThingIndex i, g.MayEquip w (g.items i) s True
  | .onPlayerEquip i s => g.MayEquip w (g.items i) s (g.inventory s = some i)
  | .queue _ | .login _ | .add _ | .remove _ => True

/-- The first of the calls may be made. -/
def MayMake (w : World) (g : Game) : List Call → Prop
  | [] => True
  | c :: calls => { g with calls }.MayCall w c

/-- A step that keeps the accounts. -/
def Safe (w : World) (g : Game) : Action → Prop
  | .makeCall => g.MayMake w g.calls
  | .moveItem i _ => g.MayLeave w i
  | .carry _ _ => True
  | .transformItem i newId newCount =>
    g.MayBecome w i (w.transformation (g.items i) newId newCount)
  | .startDecay i => (g.items i).canDecay w.decayTypes → (g.items i).decayState ≠ .decaying →
      (g.items i).getDuration = 0 → g.MayDecay w i
  | .decay i => g.MayDecay w i

section Decidable

variable (w g i s)

instance : Decidable (g.Alone w s) :=
  inferInstanceAs (Decidable (∀ t, t ≠ s →
    (g.worn w s).suppressions &&& (g.worn w t).suppressions = 0))

instance : Decidable (g.MayLeave w i) :=
  inferInstanceAs (Decidable (∀ s, g.inventory s = some i → g.inventoryAbilities s →
    (getEvent (w.deEquipEvents (g.items i).id) s).isSome ∧ g.Alone w s))

instance : Decidable (g.MayChange w i) :=
  inferInstanceAs (Decidable (∀ s, g.inventory s = some i → g.inventoryAbilities s →
    (getEvent (w.deEquipEvents (g.items i).id) s).isSome → g.Alone w s))

instance (item : Item) (lies : Prop) [Decidable lies] : Decidable (g.MayEquip w item s lies) :=
  inferInstanceAs (Decidable (∀ event ∈ getEvent (w.equipEvents item.id) s,
    g.inventoryAbilities s = false → w.wields g.bonus event →
      if (w.types item.id).transformEquipTo ≠ 0 then
        (w.effect item).bonus = 0 ∧ (w.effect item).suppressions = 0
      else lies ∧ (w.effect item).suppressions &&& taken g.calls = 0))

instance (t : Transformation) : Decidable (g.MayBecome w i t) :=
  match t with
  | .nothing | .unchanged | .again _ => isTrue trivial
  | .anew => inferInstanceAs (Decidable (g.MayLeave w i))
  | .removed => inferInstanceAs (Decidable
      ((g.items i).hasParent → (g.items i).canRemove → g.MayLeave w i))
  | .replaced id count _ => inferInstanceAs (Decidable (∀ s, g.inventory s = some i →
      if g.inventoryAbilities s then g.MayLeave w i
      else g.MayEquip w (w.create id count (g.items i).carried) s True))
  | .inPlace _ _ => inferInstanceAs (Decidable (g.MayChange w i))

instance : Decidable (g.MayDecay w i) :=
  inferInstanceAs (Decidable (if (w.types (g.items i).id).decayTo ≠ 0 then
    (g.getThingIndex i).isSome || (g.items i).carried →
      decayBonus w (w.types (g.items i).id) = 0
  else (g.items i).hasParent → (g.items i).canRemove → g.MayLeave w i))

instance (item : Item) : Decidable (g.KeepsEffect w i item) :=
  inferInstanceAs (Decidable (∀ s, g.inventory s = some i → g.inventoryAbilities s →
    w.effect item = w.effect (g.items i)))

instance (c : Call) : Decidable (g.MayCall w c) :=
  match c with
  | .transformItem i newId newCount _ => inferInstanceAs (Decidable
      (g.MayBecome w i (w.transformation (g.items i) newId newCount)))
  | .updateThing i slot itemId count duration => inferInstanceAs (Decidable
      (g.KeepsEffect w i (g.updatedItem w i slot itemId count duration) ∧
        ∀ s ∈ slot, g.MayEquip w (g.updatedItem w i slot itemId count duration) s
          (g.inventory s = some i)))
  | .setID i newId newCount => inferInstanceAs (Decidable
      (g.KeepsEffect w i (w.changed (g.items i) newId newCount)))
  | .release i s => inferInstanceAs (Decidable
      (g.inventoryAbilities s → getEvent (w.deEquipEvents (g.items i).id) s = none))
  | .startDecay i => inferInstanceAs (Decidable ((g.items i).canDecay w.decayTypes →
      (g.items i).decayState ≠ .decaying → (g.items i).getDuration = 0 → g.MayDecay w i))
  | .postAddNotification i => inferInstanceAs (Decidable
      (∀ s ∈ g.getThingIndex i, g.MayEquip w (g.items i) s True))
  | .onPlayerEquip i s => inferInstanceAs (Decidable
      (g.MayEquip w (g.items i) s (g.inventory s = some i)))
  | .queue _ | .login _ | .add _ | .remove _ => isTrue trivial

instance (calls : List Call) : Decidable (g.MayMake w calls) :=
  match calls with
  | [] => isTrue trivial
  | c :: calls => inferInstanceAs (Decidable ({ g with calls }.MayCall w c))

instance (action : Action) : Decidable (g.Safe w action) :=
  match action with
  | .makeCall => inferInstanceAs (Decidable (g.MayMake w g.calls))
  | .moveItem i _ => inferInstanceAs (Decidable (g.MayLeave w i))
  | .carry _ _ => isTrue trivial
  | .transformItem i newId newCount => inferInstanceAs (Decidable
      (g.MayBecome w i (w.transformation (g.items i) newId newCount)))
  | .startDecay i => inferInstanceAs (Decidable ((g.items i).canDecay w.decayTypes →
      (g.items i).decayState ≠ .decaying → (g.items i).getDuration = 0 → g.MayDecay w i))
  | .decay i => inferInstanceAs (Decidable (g.MayDecay w i))

end Decidable

theorem startDecayCall_neutral {decays : Bool} : ∀ c ∈ startDecayCall decays i, c.Neutral := by
  cases decays <;> simp [startDecayCall, Call.Neutral]

theorem Inv.transformItem (h : Inv w g) {newId : UInt16} {newCount : Option ℕ} {decays : Bool}
    (hmay : g.MayBecome w i (w.transformation (g.items i) newId newCount)) :
    Inv w (g.transformItem w i newId newCount decays) := by
  unfold Game.transformItem
  cases htransformation : w.transformation (g.items i) newId newCount with
  | nothing => exact h
  | unchanged => exact h.push startDecayCall_neutral
  | anew =>
    rw [htransformation] at hmay
    dsimp only
    cases hs : g.getThingIndex i with
    | none => exact h.push (by simpa [Call.Neutral] using startDecayCall_neutral)
    | some s =>
      have hpushed := h.push (l := [.setID i newId newCount]) (by simp [Call.Neutral])
      have hleft := hpushed.removeThing (i := i) hmay
      rw [show (g.push [.setID i newId newCount]).getThingIndex i = some s from hs] at hleft
      exact hleft
  | removed =>
    rw [htransformation] at hmay
    exact h.internalRemoveItem hmay
  | again newId => exact h.push (by simp [Call.Neutral])
  | replaced id count queues =>
    rw [htransformation] at hmay
    refine h.replaceThing ?_ hmay
    intro c hc
    rcases List.mem_append.mp hc with hc | hc
    · cases queues with
      | true => simp_all [Call.Neutral]
      | false => cases hc
    · exact startDecayCall_neutral c hc
  | inPlace itemId count =>
    rw [htransformation] at hmay
    have hpushed := h.push (l := .updateThing i (g.getThingIndex i) itemId count
      (g.items i).getDuration :: startDecayCall decays i)
      (by simpa [Call.Neutral] using startDecayCall_neutral)
    exact hpushed.postRemoveNotification hmay fun s hs => inventory_of_getThingIndex hs

theorem Inv.updateThing (h : Inv w g) {slot : Option Slot} {itemId : Option UInt16}
    {count : Option ℕ} {duration : Int32}
    (hmay : g.MayCall w (.updateThing i slot itemId count duration)) :
    Inv w (g.updateThing w i slot itemId count duration) := by
  obtain ⟨hkeeps, hequip⟩ := hmay
  refine (h.setItem hkeeps).postAddNotification fun s hs => ?_
  have hself : (g.setItem i (g.updatedItem w i slot itemId count duration)).items i =
      g.updatedItem w i slot itemId count duration := Function.update_self _ _ _
  rw [hself]
  exact hequip s hs

theorem Inv.internalDecayItem (h : Inv w g) (hmay : g.MayDecay w i) :
    Inv w (g.internalDecayItem w i) := by
  unfold MayDecay at hmay
  unfold Game.internalDecayItem
  dsimp only
  split
  · rename_i hdecayTo
    rw [if_pos hdecayTo] at hmay
    refine Inv.push ?_ (by simp [Call.Neutral])
    split
    · rename_i hholds
      rw [hmay hholds, sub_zero]
      exact h
    · exact h
  · rename_i hdecayTo
    rw [if_neg hdecayTo] at hmay
    exact h.internalRemoveItem hmay

theorem Inv.startDecay (h : Inv w g) (hmay : g.MayCall w (.startDecay i)) :
    Inv w (g.startDecay w i) := by
  unfold Game.startDecay
  split
  · exact h
  · rename_i hdecay
    split
    · exact h
    · rename_i hdecaying
      split
      · exact h.modifyItem rfl rfl
      · rename_i hduration
        exact h.internalDecayItem (hmay (by simpa using hdecay) hdecaying
          (by simpa using hduration))

/-- A call that changes no account by itself is taken from the list. -/
theorem Inv.pop {c : Call} (h : Inv w { g with calls := c :: g.calls }) (hc : c.Neutral) :
    Inv w g := by
  refine h.keeps ⟨rfl, rfl, le_rfl, fun _ => rfl, rfl, rfl, ?_, ?_, fun e he =>
    List.mem_cons_of_mem _ he⟩
  · rw [List.map_cons, List.sum_cons, hc.bonus, zero_add]
  · rw [taken_cons, hc.taken, UInt32.zero_or]

theorem Inv.addEffect {e : Effect} (h : Inv w { g with calls := .add e :: g.calls }) :
    Inv w (g.addEffect e) := by
  obtain ⟨hbonus, hsuppressions⟩ := h.add e List.mem_cons_self
  refine h.keeps ⟨rfl, rfl, le_rfl, fun _ => rfl, ?_, ?_, ?_, ?_, fun e he =>
    List.mem_cons_of_mem _ he⟩
  · change g.bonus + e.bonus = g.bonus
    rw [hbonus, add_zero]
  · change g.conditionSuppressions ||| e.suppressions = g.conditionSuppressions
    rw [hsuppressions, UInt32.or_zero]
  · change _ = (e.bonus :: g.calls.map Call.bonus).sum
    rw [List.sum_cons, hbonus, zero_add]
    rfl
  · change _ = 0 ||| taken g.calls
    rw [UInt32.zero_or]
    rfl

theorem Inv.release (h : Inv w g) (hmay : g.MayCall w (.release i s)) :
    Inv w (g.release w i s) := by
  have hmodified : Inv w (g.modifyItem i fun item => { item with hasParent := false }) :=
    h.modifyItem rfl rfl
  refine Inv.of_deEquip (fun _ => hmodified) fun habilities hevent => ?_
  rw [modifyItem_self] at hevent
  have hnone : getEvent (w.deEquipEvents (g.items i).id) s = none := hmay habilities
  rw [hnone] at hevent
  cases hevent

theorem Inv.call {c : Call} (h : Inv w { g with calls := c :: g.calls }) (hmay : g.MayCall w c) :
    Inv w (g.call w c) := by
  cases c with
  | transformItem i newId newCount decays => exact (h.pop trivial).transformItem hmay
  | updateThing i slot itemId count duration => exact (h.pop trivial).updateThing hmay
  | setID i newId newCount => exact (h.pop trivial).setItem hmay
  | release i s => exact (h.pop trivial).release hmay
  | queue i =>
    have hpopped := h.pop trivial
    simp only [Game.call, Game.queue]
    split
    · exact hpopped.modifyItem rfl rfl
    · exact hpopped
  | startDecay i => exact (h.pop trivial).startDecay hmay
  | postAddNotification i =>
    have hpopped := h.pop trivial
    refine hpopped.postAddNotification fun s hs => ?_
    exact (hmay s hs).congr rfl rfl rfl fun _ => inventory_of_getThingIndex hs
  | login s =>
    have hpopped := h.pop trivial
    simp only [Game.call]
    split
    · exact hpopped
    · exact hpopped.push (by simp [Call.Neutral])
  | onPlayerEquip i s => exact (h.pop trivial).onPlayerEquip hmay
  | add e => exact h.addEffect
  | remove e => exact h.removeEffect

theorem Inv.addThing (h : Inv w g) (hi : i < g.next) (hnot : ∀ t, g.inventory t ≠ some i)
    {dest : Place} (hroom : ∀ s, dest = .slot s → g.inventoryAbilities s = false) :
    Inv w (g.addThing i dest) := by
  unfold Game.addThing
  cases dest with
  | slot s =>
    have hmodified : Inv w (g.modifyItem i fun item => { item with hasParent := true }) :=
      h.modifyItem rfl rfl
    refine hmodified.setInventory (hroom s rfl) (some i) fun j hj => ?_
    cases hj
    exact ⟨hi, hnot⟩
  | container => exact h.modifyItem rfl rfl
  | elsewhere => exact h.modifyItem rfl rfl

theorem addThing_inventoryAbilities {dest : Place} :
    (g.addThing i dest).inventoryAbilities = g.inventoryAbilities := by
  cases dest <;> rfl

theorem addThing_setItemAbility {dest : Place} {enabled : Bool} :
    { (g.addThing i dest).setItemAbility s enabled with calls } =
      { g.setItemAbility s enabled with calls }.addThing i dest := by
  cases dest <;> rfl

theorem addThing_item {dest : Place} :
    ((g.addThing i dest).items i).id = (g.items i).id ∧
      ((g.addThing i dest).items i).imbuements = (g.items i).imbuements := by
  cases dest <;> simp [addThing, Game.setInventory]

theorem addThing_calls {dest : Place} : (g.addThing i dest).calls = g.calls := by
  cases dest <;> rfl

/-- The slots of an item that is moved change before it is taken off. -/
theorem Inv.moveItem (h : Inv w g) (hi : i < g.next) {dest : Place} (hmay : g.MayLeave w i) :
    Inv w (g.moveItem w i dest) := by
  have hpushed : Inv w (g.push [.postAddNotification i, .queue i]) :=
    h.push (by simp [Call.Neutral])
  have hmodified : Inv w ((g.push [.postAddNotification i, .queue i]).modifyItem i fun item =>
      { item with hasParent := false, carried := false }) := hpushed.modifyItem rfl rfl
  unfold Game.moveItem
  split
  · exact h
  · rename_i hchecks
    simp only [Bool.or_eq_true, Bool.not_eq_true', not_or, Bool.not_eq_false] at hchecks
    have hroom (s : Slot) (hdest : dest = .slot s) : g.inventoryAbilities s = false := by
      subst hdest
      by_contra habilities
      refine h.filled s (Bool.not_eq_false _ ▸ habilities) ?_
      simpa [hasRoom] using hchecks.2
    rw [removeThing_eq]
    rw [show (g.push [.postAddNotification i, .queue i]).getThingIndex i = g.getThingIndex i from
      rfl]
    cases hs : g.getThingIndex i with
    | none =>
      refine hmodified.addThing hi (fun t ht => ?_) hroom
      have hsome := getThingIndex_isSome (g := g) ht
      rw [hs] at hsome
      cases hsome
    | some s =>
      have hinventory : g.inventory s = some i := inventory_of_getThingIndex hs
      have hnot (t : Slot) : Function.update g.inventory s none t ≠ some i := by
        by_cases hts : t = s
        · subst hts
          rw [Function.update_self]
          exact (Option.some_ne_none i).symm
        · rw [Function.update_of_ne hts]
          exact fun ht => hts (h.injective t s i ht hinventory)
      set left := (g.push [.postAddNotification i, .queue i]).modifyItem i fun item =>
        { item with hasParent := false, carried := false } with hleft
      have hid : (left.items i).id = (g.items i).id := by rw [hleft, modifyItem_self]; rfl
      refine Inv.of_deEquip (fun hstays => ?_) fun habilities _ => ?_
      · rw [addThing_inventoryAbilities, addThing_item.1] at hstays
        have hoff : g.inventoryAbilities s = false := by
          rcases hstays with habilities | hevent
          · exact habilities
          · by_contra habilities
            obtain ⟨hsome, -⟩ := hmay s hinventory (Bool.not_eq_false _ ▸ habilities)
            have hevent : getEvent (w.deEquipEvents (left.items i).id) s = none := hevent
            rw [hid] at hevent
            rw [hevent] at hsome
            cases hsome
        exact (hmodified.setInventory hoff none fun j hj => by cases hj).addThing hi hnot hroom
      · rw [addThing_inventoryAbilities] at habilities
        have habilities : g.inventoryAbilities s = true := habilities
        have halone : left.Alone w s := (hmay.modifyItem (f := fun item =>
          { item with hasParent := false, carried := false }) rfl rfl s hinventory habilities).2
        have hoff := (hmodified.off hinventory habilities halone).setInventory
          setItemAbility_self none fun j hj => by cases hj
        rw [addThing_setItemAbility, effect_congr addThing_item.1 addThing_item.2, addThing_calls]
        refine Inv.addThing hoff hi hnot fun s' hdest => ?_
        by_cases hs' : s' = s
        · subst hs'
          exact setItemAbility_self
        · exact (setItemAbility_of_ne hs').trans (hroom s' hdest)

theorem step_inv (h : Inv w g) (action : Action) (hsafe : g.Safe w action) :
    Inv w (g.step w action) := by
  cases action with
  | makeCall =>
    unfold Safe at hsafe
    simp only [step, Game.makeCall]
    cases hcalls : g.calls with
    | nil => exact h
    | cons c calls =>
      rw [hcalls] at hsafe
      have h' : Inv w { { g with calls } with calls := c :: calls } := by
        rw [← hcalls]
        exact h
      exact h'.call hsafe
  | moveItem i dest =>
    simp only [step]
    split
    · rename_i hi
      simp only [Bool.and_eq_true, decide_eq_true_eq] at hi
      exact h.moveItem hi.2 hsafe
    · exact h
  | carry i carried =>
    simp only [step]
    split
    · exact h.modifyItem rfl rfl
    · exact h
  | transformItem i newId newCount =>
    simp only [step]
    split
    · exact h.transformItem hsafe
    · exact h
  | startDecay i =>
    simp only [step]
    split
    · exact h.startDecay hsafe
    · exact h
  | decay i =>
    simp only [step]
    split
    · refine Inv.internalDecayItem (h.modifyItem rfl rfl) ?_
      have hsafe : g.MayDecay w i := hsafe
      unfold MayDecay at hsafe ⊢
      rw [modifyItem_self]
      split
      · rename_i hdecayTo
        rwa [if_pos hdecayTo] at hsafe
      · rename_i hdecayTo
        rw [if_neg hdecayTo] at hsafe
        exact fun hparent hremove => (hsafe hparent hremove).modifyItem rfl rfl
    · exact h

/-- A player who wears nothing. -/
structure Start (g : Game) : Prop where
  inventory : ∀ s, g.inventory s = none
  inventoryAbilities : ∀ s, g.inventoryAbilities s = false
  bonus : g.bonus = 0
  conditionSuppressions : g.conditionSuppressions = 0
  calls : g.calls = []

theorem Start.inv (h : Start g) : Inv w g := by
  have hworn (s : Slot) : g.worn w s = {} := worn_of_disabled (h.inventoryAbilities s)
  refine ⟨fun s t i hs => ?_, fun s i hs => ?_, fun s hs => ?_, ?_, ?_, fun e he => ?_⟩
  · rw [h.inventory] at hs
    cases hs
  · rw [h.inventory] at hs
    cases hs
  · rw [h.inventoryAbilities] at hs
    cases hs
  · unfold Ledger.Balanced
    simp [hworn, h.bonus, h.calls]
  · unfold Ledger.Covered
    simp [hworn, h.conditionSuppressions]
  · rw [h.calls] at he
    cases he

/-- The suppressions of all slots together. -/
def wornSuppressions (w : World) (g : Game) : UInt32 :=
  (Slot.all.map fun s => (g.worn w s).suppressions).foldr (· ||| ·) 0

theorem bits_foldr (l : List UInt32) : bits (l.foldr (· ||| ·) 0) = ⋃ x ∈ l, bits x := by
  induction l with
  | nil => simp
  | cons x l ih => simp [ih]

theorem bits_wornSuppressions : bits (g.wornSuppressions w) =
    ⋃ s, bits (g.worn w s).suppressions := by
  rw [wornSuppressions, bits_foldr]
  ext k
  have hall (s : Slot) : s ∈ Slot.all := Fintype.complete s
  simp [hall]

theorem Inv.settled (h : Inv w g) (hdone : g.calls = []) :
    g.bonus = ∑ s, (g.worn w s).bonus ∧ g.conditionSuppressions = g.wornSuppressions w := by
  constructor
  · have hbonus := h.bonus
    rw [hdone] at hbonus
    unfold Ledger.Balanced at hbonus
    simpa using hbonus
  · refine bits_injective ?_
    have hcovered := h.suppressions
    rw [hdone] at hcovered
    unfold Ledger.Covered at hcovered
    rw [bits_wornSuppressions, ← hcovered]
    simp [taken]

/-- In a run whose steps keep the accounts, whenever no call is left to be made, the counters are
the sum over the worn items with their ability enabled and the suppressions are the union; so they
are as before whenever the same is worn again. -/
theorem bonus_of_run (hstart : Start g) {actions later : List Action}
    (hsafe : Run.Steps (step w) (Safe w) g (actions ++ later))
    (hdone : (actions.foldl (step w) g).calls = []) :
    (actions.foldl (step w) g).bonus = ∑ s, ((actions.foldl (step w) g).worn w s).bonus ∧
      (actions.foldl (step w) g).conditionSuppressions =
        (actions.foldl (step w) g).wornSuppressions w ∧
      (((actions ++ later).foldl (step w) g).calls = [] →
        (∀ s, ((actions ++ later).foldl (step w) g).worn w s =
          (actions.foldl (step w) g).worn w s) →
        ((actions ++ later).foldl (step w) g).bonus = (actions.foldl (step w) g).bonus ∧
          ((actions ++ later).foldl (step w) g).conditionSuppressions =
            (actions.foldl (step w) g).conditionSuppressions) := by
  have hstep (g : Game) (action : Action) (h : Inv w g) (hok : g.Safe w action) :
      Inv w (g.step w action) := step_inv h action hok
  have hactions := (Run.steps_append.mp hsafe).1
  have hsettled := (Run.invariant (P := Inv w) hstep hstart.inv hactions).settled hdone
  refine ⟨hsettled.1, hsettled.2, fun hdone' hworn => ?_⟩
  have hsettled' := (Run.invariant (P := Inv w) hstep hstart.inv hsafe).settled hdone'
  refine ⟨hsettled'.1.trans ?_, hsettled'.2.trans ?_⟩
  · rw [hsettled.1]
    exact Finset.sum_congr rfl fun s _ => by rw [hworn]
  · rw [hsettled.2, wornSuppressions, wornSuppressions]
    simp only [hworn]

/-- The sword ring in its two forms, and the fiery rainbow shield with what it decays to. -/
def armoury : World where
  types
    | 2207 => { transformEquipTo := 2210, stopTime := true }
    | 2210 => { transformDeEquipTo := 2207, decayTo := 0, decayTime := 1800,
                abilities := some { skills := fun i => if i = 2 then 4 else 0 } }
    | 8906 => { decayTo := 8905, decayTime := 1200,
                abilities := some { skills := fun i => if i = 5 then 3 else 0 } }
    | _ => {}
  getImbuement _ := {}
  equipEvents
    | 2207 | 2210 => [{ slot := Slot.ring.slotp }]
    | 8905 | 8906 =>
      [{ slot := Slot.left.slotp ||| Slot.right.slotp, wieldInfo := 1, reqLevel := 100 }]
    | _ => []
  deEquipEvents
    | 2210 => [{ slot := Slot.ring.slotp }]
    | 8905 | 8906 => [{ slot := Slot.left.slotp ||| Slot.right.slotp }]
    | _ => []
  percentOf _ _ := 0
  player := { level := 120, magLevel := 4, healthMax := 1000, manaMax := 500, skills := fun _ => 10,
              vocationId := 4, isPremium := true, ignoreWeaponCheck := false }

/-- A player who carries the ring and the shield. -/
def carrier : Game where
  items
    | 0 => { id := 2207, carried := true }
    | _ => { id := 8906, carried := true, duration := some 1200000 }
  next := 2
  inventory _ := none
  inventoryAbilities _ := false
  bonus := 0
  capacity := 40000
  conditionSuppressions := 0
  calls := []

theorem carrier_start : Start carrier := ⟨fun _ => rfl, fun _ => rfl, rfl, rfl, rfl⟩

def putOn (i : ℕ) (s : Slot) : List Action :=
  .moveItem i (.slot s) :: List.replicate 6 .makeCall

def putOff (i : ℕ) : List Action := .moveItem i .container :: List.replicate 6 .makeCall

theorem bonus_of_ring :
    ((putOn 0 .ring).foldl (step armoury) carrier).bonus =
        ∑ s, (((putOn 0 .ring).foldl (step armoury) carrier).worn armoury s).bonus ∧
      ((putOn 0 .ring).foldl (step armoury) carrier).conditionSuppressions =
        ((putOn 0 .ring).foldl (step armoury) carrier).wornSuppressions armoury ∧
      (((putOn 0 .ring ++ (putOff 0 ++ putOn 0 .ring)).foldl (step armoury) carrier).calls = [] →
        (∀ s, ((putOn 0 .ring ++ (putOff 0 ++ putOn 0 .ring)).foldl (step armoury) carrier).worn
            armoury s = ((putOn 0 .ring).foldl (step armoury) carrier).worn armoury s) →
        ((putOn 0 .ring ++ (putOff 0 ++ putOn 0 .ring)).foldl (step armoury) carrier).bonus =
            ((putOn 0 .ring).foldl (step armoury) carrier).bonus ∧
          ((putOn 0 .ring ++ (putOff 0 ++ putOn 0 .ring)).foldl (step armoury)
              carrier).conditionSuppressions =
            ((putOn 0 .ring).foldl (step armoury) carrier).conditionSuppressions) :=
  bonus_of_run carrier_start (by decide) (by decide)

/-- Worn until it decays, the shield takes its skill twice. -/
theorem decay_takes_twice :
    let worn := (putOn 1 .right).foldl (step armoury) carrier
    let g := (Action.decay 1 :: List.replicate 6 .makeCall).foldl (step armoury) worn
    g.calls = [] ∧ worn.bonus (.skill 5) = 3 ∧ (g.items 1).id = 8905 ∧
      g.bonus (.skill 5) = -3 ∧ ∑ s, (g.worn armoury s).bonus (.skill 5) = 0 := by
  decide

/-- In a backpack it takes what was never added. -/
example : ((Action.decay 1 :: List.replicate 6 .makeCall).foldl (step armoury) carrier).bonus
    (.skill 5) = -3 := by
  decide

end Game

end OTServBR.Equipment
