import OTServBR.Lib.Ledger
import OTServBR.Equipment.Basic

/-! # The bonuses of equipment

The counters of a player are the sum of what the worn items add whose ability is
enabled, and the suppressions are the union, while effects are still to be added
or removed. What a call takes from the player besides, and a change of a worn
item, breaks this.
-/

namespace OTServBR.Equipment

variable {w : World}

/-! ## Bits -/

def bits (x : UInt32) : Set ℕ := {k | x.toBitVec.getLsbD k = true}

@[simp] theorem bits_zero : bits 0 = ∅ := by
  ext k
  simp [bits]

@[simp] theorem bits_or (x y : UInt32) : bits (x ||| y) = bits x ∪ bits y := by
  ext k
  simp [bits]

@[simp] theorem bits_and (x y : UInt32) : bits (x &&& y) = bits x ∩ bits y := by
  ext k
  simp [bits]

theorem bits_and_not (x y : UInt32) : bits (x &&& ~~~y) = bits x \ bits y := by
  ext k
  simp only [bits, UInt32.toBitVec_and, UInt32.toBitVec_not, BitVec.getLsbD_and,
    BitVec.getLsbD_not, Set.mem_ofPred_eq, Set.mem_sdiff, Bool.and_eq_true, Bool.not_eq_true',
    decide_eq_true_eq, Bool.not_eq_true]
  constructor
  · rintro ⟨hx, -, hy⟩
    exact ⟨hx, hy⟩
  · rintro ⟨hx, hy⟩
    exact ⟨hx, BitVec.lt_of_getLsbD hx, hy⟩

theorem bits_injective {x y : UInt32} (h : bits x = bits y) : x = y := by
  refine UInt32.toBitVec_inj.mp (BitVec.eq_of_getLsbD_eq fun k _ => ?_)
  have hk : k ∈ bits x ↔ k ∈ bits y := by rw [h]
  exact Bool.eq_iff_iff.mpr hk

theorem disjoint_bits {x y : UInt32} (h : x &&& y = 0) : Disjoint (bits x) (bits y) := by
  rw [Set.disjoint_iff_inter_eq_empty, ← bits_and, h, bits_zero]

namespace Call

/-- What the account of the counters still gets. -/
def bonus : Call → Bonus
  | .add e => e.bonus
  | .remove e => -e.bonus
  | _ => 0

/-- The suppressions that are still to be taken back. -/
def taken : Call → UInt32
  | .remove e => e.suppressions
  | _ => 0

/-- The call changes no account by itself. -/
def Neutral : Call → Prop
  | .add _ | .remove _ => False
  | _ => True

theorem Neutral.bonus {c : Call} (h : c.Neutral) : c.bonus = 0 := by
  cases c <;> first | rfl | exact h.elim

theorem Neutral.taken {c : Call} (h : c.Neutral) : c.taken = 0 := by
  cases c <;> first | rfl | exact h.elim

end Call

def taken (calls : List Call) : UInt32 := (calls.map Call.taken).foldr (· ||| ·) 0

namespace Game

variable (w : World)

/-- What the slot adds: the effect of the item that is worn with its ability enabled. -/
def worn (g : Game) (s : Slot) : Effect :=
  if g.inventoryAbilities s then
    match g.inventory s with
    | some i => w.effect (g.items i)
    | none => {}
  else {}

/-- The accounts hold what the slots add, up to what is still to be added or removed. -/
structure Inv (g : Game) : Prop where
  injective : ∀ s t i, g.inventory s = some i → g.inventory t = some i → s = t
  known : ∀ s i, g.inventory s = some i → i < g.next
  filled : ∀ s, g.inventoryAbilities s → g.inventory s ≠ none
  bonus : Ledger.Balanced g.bonus (g.calls.map Call.bonus) fun s => (g.worn w s).bonus
  suppressions : Ledger.Covered (bits g.conditionSuppressions) (bits (taken g.calls))
    fun s => bits (g.worn w s).suppressions
  add : ∀ e, .add e ∈ g.calls → e.bonus = 0 ∧ e.suppressions = 0

/-- What the inventory and the accounts are made of stays. -/
structure Keeps (g g' : Game) : Prop where
  inventory : g'.inventory = g.inventory
  inventoryAbilities : g'.inventoryAbilities = g.inventoryAbilities
  next : g.next ≤ g'.next
  worn : ∀ s, g'.worn w s = g.worn w s
  bonus : g'.bonus = g.bonus
  conditionSuppressions : g'.conditionSuppressions = g.conditionSuppressions
  owed : (g'.calls.map Call.bonus).sum = (g.calls.map Call.bonus).sum
  taken : taken g'.calls = taken g.calls
  add : ∀ e, .add e ∈ g'.calls → .add e ∈ g.calls

variable {w} {g g' : Game} {i : ℕ} {s : Slot}

theorem Inv.keeps (h : Inv w g) (hkeeps : Keeps w g g') : Inv w g' := by
  obtain ⟨hinventory, habilities, hnext, hworn, hbonus, hsuppressions, howed, htaken, hadd⟩ :=
    hkeeps
  refine ⟨?_, ?_, ?_, ?_, ?_, fun e he => h.add e (hadd e he)⟩
  · rw [hinventory]
    exact h.injective
  · rw [hinventory]
    exact fun s i hi => (h.known s i hi).trans_le hnext
  · rw [hinventory, habilities]
    exact h.filled
  · have hbalanced := h.bonus
    unfold Ledger.Balanced at *
    simp only [hworn, hbonus, howed]
    exact hbalanced
  · simp only [hworn, hsuppressions, htaken]
    exact h.suppressions

theorem Keeps.refl (g : Game) : Keeps w g g :=
  ⟨rfl, rfl, le_rfl, fun _ => rfl, rfl, rfl, rfl, rfl, fun _ h => h⟩

theorem taken_cons (c : Call) (l : List Call) : taken (c :: l) = c.taken ||| taken l := rfl

theorem keeps_push {l : List Call} (hl : ∀ c ∈ l, c.Neutral) : Keeps w g (g.push l) := by
  refine ⟨rfl, rfl, le_rfl, fun _ => rfl, rfl, rfl, ?_, ?_, ?_⟩
  · induction l with
    | nil => rfl
    | cons c l ih =>
      obtain ⟨hc, hl⟩ := List.forall_mem_cons.mp hl
      change (((c :: (l ++ g.calls)).map Call.bonus)).sum = _
      rw [List.map_cons, List.sum_cons, hc.bonus, zero_add]
      exact ih hl
  · induction l with
    | nil => rfl
    | cons c l ih =>
      obtain ⟨hc, hl⟩ := List.forall_mem_cons.mp hl
      change taken (c :: (l ++ g.calls)) = _
      rw [taken_cons, hc.taken, UInt32.zero_or]
      exact ih hl
  · intro e he
    rcases List.mem_append.mp he with he | he
    · exact (hl _ he).elim
    · exact he

theorem effect_congr {item item' : Item} (hid : item'.id = item.id)
    (himbuements : item'.imbuements = item.imbuements) : w.effect item' = w.effect item := by
  simp only [World.effect, World.imbuements, hid, himbuements]

theorem worn_of_disabled (h : g.inventoryAbilities s = false) : g.worn w s = {} := by
  rw [worn, if_neg (Bool.not_eq_true _ ▸ h)]

theorem worn_of_enabled (h : g.inventoryAbilities s = true) (hs : g.inventory s = some i) :
    g.worn w s = w.effect (g.items i) := by
  rw [worn, if_pos h, hs]

theorem worn_congr (hinventory : g'.inventory s = g.inventory s)
    (habilities : g'.inventoryAbilities s = g.inventoryAbilities s)
    (heffect : ∀ i, g.inventory s = some i → g.inventoryAbilities s →
      w.effect (g'.items i) = w.effect (g.items i)) : g'.worn w s = g.worn w s := by
  cases hs : g.inventoryAbilities s with
  | false => rw [worn_of_disabled hs, worn_of_disabled (habilities.trans hs)]
  | true =>
    rw [worn, worn, habilities, hs, hinventory, if_pos rfl, if_pos rfl]
    cases hi : g.inventory s with
    | none => rfl
    | some i => exact heffect i hi hs

/-- A change that leaves the effect of a worn item as it is. -/
theorem keeps_modifyItem {f : Item → Item}
    (hf : ∀ s, g.inventory s = some i → g.inventoryAbilities s →
      w.effect (f (g.items i)) = w.effect (g.items i)) : Keeps w g (g.modifyItem i f) := by
  refine ⟨rfl, rfl, le_rfl, fun s => worn_congr rfl rfl fun j hs habilities => ?_, rfl, rfl, rfl,
    rfl, fun _ h => h⟩
  change w.effect (Function.update g.items i (f (g.items i)) j) = _
  by_cases hj : j = i
  · subst hj
    rw [Function.update_self]
    exact hf s hs habilities
  · rw [Function.update_of_ne hj]

theorem keeps_addItem (h : Inv w g) (item : Item) : Keeps w g (g.addItem item) := by
  refine ⟨rfl, rfl, Nat.le_succ _, fun s => worn_congr rfl rfl fun j hs habilities => ?_, rfl, rfl,
    rfl, rfl, fun _ h => h⟩
  change w.effect (Function.update g.items g.next item j) = _
  rw [Function.update_of_ne (h.known s j hs).ne]

theorem worn_setItemAbility_of_ne {t : Slot} {enabled : Bool} (ht : t ≠ s) :
    (g.setItemAbility s enabled).worn w t = g.worn w t := by
  simp only [worn, setItemAbility, Function.update_of_ne ht]

theorem worn_setItemAbility (f : Effect → α) (e : Effect) {enabled : Bool}
    (h : (g.setItemAbility s enabled).worn w s = e) :
    (fun t => f ((g.setItemAbility s enabled).worn w t)) =
      Function.update (fun t => f (g.worn w t)) s (f e) := by
  funext t
  by_cases ht : t = s
  · subst ht
    rw [Function.update_self, h]
  · rw [Function.update_of_ne ht, worn_setItemAbility_of_ne ht]

/-- No other slot suppresses what this one does. -/
def Alone (w : World) (g : Game) (s : Slot) : Prop :=
  ∀ t ≠ s, (g.worn w s).suppressions &&& (g.worn w t).suppressions = 0

/-- A slot is switched off and owes its effect. -/
theorem Inv.off (h : Inv w g) (hs : g.inventory s = some i)
    (habilities : g.inventoryAbilities s = true) (halone : g.Alone w s) :
    Inv w { g.setItemAbility s false with
      calls := .remove (w.effect (g.items i)) :: g.calls } := by
  have hworn := worn_of_enabled (w := w) habilities hs
  have hoff : (g.setItemAbility s false).worn w s = {} :=
    worn_of_disabled setItemAbility_self
  refine ⟨h.injective, h.known, fun t ht => ?_, ?_, ?_, fun e he => ?_⟩
  · by_cases hts : t = s
    · subst hts
      exact hs.symm ▸ Option.some_ne_none i
    · refine h.filled t ?_
      rwa [setItemAbility_of_ne hts] at ht
  · have hrelease := h.bonus.release (s := s)
    rw [hworn] at hrelease
    change Ledger.Balanced g.bonus (-(w.effect (g.items i)).bonus :: g.calls.map Call.bonus)
      fun t => ((g.setItemAbility s false).worn w t).bonus
    rw [worn_setItemAbility Effect.bonus {} hoff]
    exact hrelease
  · have hrelease := h.suppressions.release (s := s) fun t ht => disjoint_bits (halone t ht)
    rw [hworn] at hrelease
    change Ledger.Covered (bits g.conditionSuppressions)
      (bits ((w.effect (g.items i)).suppressions ||| taken g.calls))
      fun t => bits ((g.setItemAbility s false).worn w t).suppressions
    rw [worn_setItemAbility (fun e => bits e.suppressions) {} hoff, bits_or]
    simpa using hrelease
  · rcases List.mem_cons.mp he with he | he
    · cases he
    · exact h.add e he

/-- Another item comes into a slot that is switched off, or none. -/
theorem Inv.setInventory (h : Inv w g) (hs : g.inventoryAbilities s = false) (o : Option ℕ)
    (ho : ∀ j, o = some j → j < g.next ∧ ∀ t, g.inventory t ≠ some j) :
    Inv w (g.setInventory s o) := by
  have hworn (t : Slot) : (g.setInventory s o).worn w t = g.worn w t := by
    by_cases hts : t = s
    · subst hts
      rw [worn_of_disabled hs, worn_of_disabled (g := g.setInventory t o) hs]
    · exact worn_congr (setInventory_of_ne hts) rfl fun _ _ _ => rfl
  refine ⟨fun t u j ht hu => ?_, fun t j ht => ?_, fun t ht => ?_, ?_, ?_, h.add⟩
  · by_cases hts : t = s
    · by_cases hus : u = s
      · rw [hts, hus]
      · subst hts
        rw [setInventory_self] at ht
        rw [setInventory_of_ne hus] at hu
        exact absurd hu ((ho j ht).2 u)
    · by_cases hus : u = s
      · subst hus
        rw [setInventory_self] at hu
        rw [setInventory_of_ne hts] at ht
        exact absurd ht ((ho j hu).2 t)
      · rw [setInventory_of_ne hts] at ht
        rw [setInventory_of_ne hus] at hu
        exact h.injective t u j ht hu
  · by_cases hts : t = s
    · subst hts
      rw [setInventory_self] at ht
      exact (ho j ht).1
    · rw [setInventory_of_ne hts] at ht
      exact h.known t j ht
  · have hts : t ≠ s := by
      rintro rfl
      exact Bool.false_ne_true (hs.symm.trans ht)
    rw [setInventory_of_ne hts]
    exact h.filled t ht
  · simp only [hworn]
    exact h.bonus
  · simp only [hworn]
    exact h.suppressions

/-- What is owed is taken from the accounts. -/
theorem Inv.removeEffect {e : Effect} (h : Inv w { g with calls := .remove e :: g.calls }) :
    Inv w (g.removeEffect e) := by
  refine ⟨h.injective, h.known, h.filled, ?_, ?_, fun e' he => h.add e' (List.mem_cons_of_mem _ he)⟩
  · change Ledger.Balanced (g.bonus - e.bonus) (g.calls.map Call.bonus) fun s => (g.worn w s).bonus
    rw [sub_eq_add_neg]
    exact Ledger.balanced_cons.mp h.bonus
  · have hcovered := h.suppressions
    rw [taken_cons] at hcovered
    change Ledger.Covered (bits g.conditionSuppressions)
      (bits (e.suppressions ||| taken g.calls)) fun s => bits (g.worn w s).suppressions at hcovered
    rw [bits_or, Ledger.covered_union] at hcovered
    change Ledger.Covered (bits (g.conditionSuppressions &&& ~~~e.suppressions))
      (bits (taken g.calls)) fun s => bits (g.worn w s).suppressions
    rw [bits_and_not]
    exact hcovered

/-- What comes of the item that leaves a slot, in a game that is about to switch it off. -/
theorem Inv.deEquipItem (hs : g.inventoryAbilities s = true)
    (h : Inv w { g.setItemAbility s false with
      calls := .remove (w.effect (g.items i)) :: g.calls }) : Inv w (g.deEquipItem w i s) := by
  rw [Game.deEquipItem, hs]
  simp only [Bool.not_true, Bool.false_eq_true, if_false]
  split
  · exact h.keeps (keeps_push (l := [.transformItem i _ none false, .startDecay i])
      (by simp [Call.Neutral]))
  · exact Inv.removeEffect (g := g.setItemAbility s false) h

variable {calls : List Call}

/-- An item that takes part in the slot it is in can be taken off again. -/
def MayLeave (w : World) (g : Game) (i : ℕ) : Prop :=
  ∀ s, g.inventory s = some i → g.inventoryAbilities s →
    (getEvent (w.deEquipEvents (g.items i).id) s).isSome ∧ g.Alone w s

/-- A worn item can be changed in place. -/
def MayChange (w : World) (g : Game) (i : ℕ) : Prop :=
  ∀ s, g.inventory s = some i → g.inventoryAbilities s →
    (getEvent (w.deEquipEvents (g.items i).id) s).isSome → g.Alone w s

/-- An item that is put on lies in the slot, and no suppression of it is still to be taken back;
one that changes first adds nothing of its own. -/
def MayEquip (w : World) (g : Game) (item : Item) (s : Slot) (lies : Prop) : Prop :=
  ∀ event ∈ getEvent (w.equipEvents item.id) s, g.inventoryAbilities s = false →
    w.wields g.bonus event →
      if (w.types item.id).transformEquipTo ≠ 0 then
        (w.effect item).bonus = 0 ∧ (w.effect item).suppressions = 0
      else lies ∧ (w.effect item).suppressions &&& taken g.calls = 0

theorem Inv.push (h : Inv w g) {l : List Call} (hl : ∀ c ∈ l, c.Neutral) : Inv w (g.push l) :=
  h.keeps (keeps_push hl)

theorem Inv.setItem (h : Inv w g) {item : Item}
    (hitem : ∀ s, g.inventory s = some i → g.inventoryAbilities s →
      w.effect item = w.effect (g.items i)) : Inv w (g.setItem i item) :=
  h.keeps (keeps_modifyItem (f := fun _ => item) hitem)

theorem Inv.modifyItem (h : Inv w g) {f : Item → Item}
    (hid : (f (g.items i)).id = (g.items i).id)
    (himbuements : (f (g.items i)).imbuements = (g.items i).imbuements) :
    Inv w (g.modifyItem i f) :=
  h.keeps (keeps_modifyItem fun _ _ _ => effect_congr hid himbuements)

/-- The call of an effect that is nothing. -/
theorem Inv.pushAdd (h : Inv w g) {e : Effect} (hbonus : e.bonus = 0)
    (hsuppressions : e.suppressions = 0) :
    Inv w (g.push [.add e]) := by
  refine ⟨h.injective, h.known, h.filled, ?_, ?_, fun e' he => ?_⟩
  · change Ledger.Balanced g.bonus (e.bonus :: g.calls.map Call.bonus) fun s => (g.worn w s).bonus
    rw [Ledger.balanced_cons, hbonus, add_zero]
    exact h.bonus
  · change Ledger.Covered _ (bits (0 ||| taken g.calls)) fun s => bits (g.worn w s).suppressions
    rw [UInt32.zero_or]
    exact h.suppressions
  · rcases List.mem_cons.mp he with he | he
    · cases he
      exact ⟨hbonus, hsuppressions⟩
    · exact h.add e' he

/-- The slot of an item is switched on. -/
theorem Inv.on (h : Inv w g) (hs : g.inventory s = some i)
    (habilities : g.inventoryAbilities s = false)
    (hdisjoint : (w.effect (g.items i)).suppressions &&& taken g.calls = 0) :
    Inv w ((g.setItemAbility s true).addEffect (w.effect (g.items i))) := by
  have hoff := worn_of_disabled (w := w) habilities
  have hon : (g.setItemAbility s true).worn w s = w.effect (g.items i) :=
    worn_of_enabled setItemAbility_self hs
  refine ⟨h.injective, h.known, fun t ht => ?_, ?_, ?_, h.add⟩
  · by_cases hts : t = s
    · subst hts
      exact hs.symm ▸ Option.some_ne_none i
    · refine h.filled t ?_
      exact (setItemAbility_of_ne (g := g) hts).symm.trans ht
  · have hhold := h.bonus.hold (s := s) (a := (w.effect (g.items i)).bonus) (by rw [hoff])
    rw [← worn_setItemAbility Effect.bonus _ hon] at hhold
    exact hhold
  · have hhold := h.suppressions.hold (s := s) (a := bits (w.effect (g.items i)).suppressions)
      (by rw [hoff, bits_zero]) (disjoint_bits hdisjoint)
    rw [← worn_setItemAbility (fun e => bits e.suppressions) _ hon, ← bits_or] at hhold
    exact hhold

theorem Inv.onPlayerEquip (h : Inv w g)
    (hmay : g.MayEquip w (g.items i) s (g.inventory s = some i)) :
    Inv w (g.onPlayerEquip w i s) := by
  unfold Game.onPlayerEquip
  split
  · exact h
  · rename_i event hevent
    unfold Game.equipItem
    split
    · exact h
    · rename_i habilities
      split
      · exact h
      · rename_i hwields
        have hmay := hmay event hevent (Bool.not_eq_true _ ▸ habilities) (by simpa using hwields)
        dsimp only
        split
        · rename_i htransform
          rw [if_pos htransform] at hmay
          exact (h.pushAdd hmay.1 hmay.2).push (l := [.transformItem i _ none true])
            (by simp [Call.Neutral])
        · rename_i htransform
          rw [if_neg htransform] at hmay
          exact h.on hmay.1 (Bool.not_eq_true _ ▸ habilities) hmay.2

theorem Inv.postAddNotification (h : Inv w g) {slot : Option Slot}
    (hmay : ∀ s ∈ slot, g.MayEquip w (g.items i) s (g.inventory s = some i)) :
    Inv w (g.postAddNotification w i slot) := by
  cases slot with
  | none => exact h
  | some s => exact h.onPlayerEquip (hmay s rfl)

/-- What comes of an item that is taken off: nothing, or the slot is switched off. -/
theorem Inv.of_deEquip (hstays : g.inventoryAbilities s = false ∨
      getEvent (w.deEquipEvents (g.items i).id) s = none → Inv w g)
    (hoff : g.inventoryAbilities s = true →
      (getEvent (w.deEquipEvents (g.items i).id) s).isSome →
      Inv w { g.setItemAbility s false with
        calls := .remove (w.effect (g.items i)) :: g.calls }) :
    Inv w (g.onPlayerDeEquip w i s) := by
  unfold Game.onPlayerDeEquip
  cases hevent : getEvent (w.deEquipEvents (g.items i).id) s with
  | none => exact hstays (Or.inr hevent)
  | some event =>
    cases habilities : g.inventoryAbilities s with
    | false =>
      dsimp only
      rw [Game.deEquipItem, habilities]
      exact hstays (Or.inl habilities)
    | true => exact Inv.deEquipItem habilities (hoff habilities (by rw [hevent]; rfl))

/-- An item is taken off where it stays. -/
theorem Inv.onPlayerDeEquip (h : Inv w g) (hs : g.inventory s = some i) (hmay : g.MayChange w i) :
    Inv w (g.onPlayerDeEquip w i s) :=
  Inv.of_deEquip (fun _ => h) fun habilities hevent =>
    h.off hs habilities (hmay s hs habilities hevent)

theorem Inv.postRemoveNotification (h : Inv w g) (hmay : g.MayChange w i) {slot : Option Slot}
    (hslot : ∀ s ∈ slot, g.inventory s = some i) : Inv w (g.postRemoveNotification w i slot) := by
  cases slot with
  | none => exact h
  | some s => exact h.onPlayerDeEquip (hslot s rfl) hmay

/-- An item leaves its slot, into which another one may come. -/
theorem Inv.leave (h : Inv w g) (hs : g.inventory s = some i) (hmay : g.MayLeave w i)
    {o : Option ℕ} (ho : ∀ j, o = some j → j < g.next ∧ ∀ t, g.inventory t ≠ some j) :
    Inv w ((g.setInventory s o).onPlayerDeEquip w i s) := by
  refine Inv.of_deEquip (fun hstays => ?_) fun habilities _ => ?_
  · refine h.setInventory ?_ o ho
    rcases hstays with habilities | hevent
    · exact habilities
    · by_contra habilities
      obtain ⟨hsome, -⟩ := hmay s hs (Bool.not_eq_false _ ▸ habilities)
      have hevent : getEvent (w.deEquipEvents (g.items i).id) s = none := hevent
      rw [hevent] at hsome
      cases hsome
  · exact (h.off hs habilities (hmay s hs habilities).2).setInventory setItemAbility_self o ho

theorem MayLeave.keeps (h : g.MayLeave w i) (hkeeps : Keeps w g g')
    (hid : (g'.items i).id = (g.items i).id) : g'.MayLeave w i := by
  intro s hs habilities
  rw [hkeeps.inventory] at hs
  rw [hkeeps.inventoryAbilities] at habilities
  obtain ⟨hevent, halone⟩ := h s hs habilities
  refine ⟨?_, fun t ht => ?_⟩
  · rw [hid]
    exact hevent
  · rw [hkeeps.worn, hkeeps.worn]
    exact halone t ht

theorem MayLeave.modifyItem (h : g.MayLeave w i) {f : Item → Item}
    (hid : (f (g.items i)).id = (g.items i).id)
    (himbuements : (f (g.items i)).imbuements = (g.items i).imbuements) :
    (g.modifyItem i f).MayLeave w i :=
  h.keeps (keeps_modifyItem fun _ _ _ => effect_congr hid himbuements)
    (by rw [modifyItem_self, hid])

theorem MayEquip.congr {item : Item} {lies lies' : Prop} (h : g.MayEquip w item s lies)
    (habilities : g'.inventoryAbilities s = g.inventoryAbilities s) (hbonus : g'.bonus = g.bonus)
    (htaken : taken g'.calls = taken g.calls) (hlies : lies → lies') :
    g'.MayEquip w item s lies' := by
  intro event hevent hoff hwields
  rw [habilities] at hoff
  rw [hbonus] at hwields
  have hmay := h event hevent hoff hwields
  rw [htaken]
  split
  · rename_i htransform
    rwa [if_pos htransform] at hmay
  · rename_i htransform
    rw [if_neg htransform] at hmay
    exact ⟨hlies hmay.1, hmay.2⟩

theorem removeThing_eq :
    g.removeThing i = match g.getThingIndex i with
      | none => g.modifyItem i fun item => { item with hasParent := false, carried := false }
      | some s => (g.modifyItem i fun item =>
          { item with hasParent := false, carried := false }).setInventory s none := rfl

/-- An item leaves its slot for another place, or for none. -/
theorem Inv.removeThing (h : Inv w g) (hmay : g.MayLeave w i) :
    Inv w ((g.removeThing i).postRemoveNotification w i (g.getThingIndex i)) := by
  have hmodified : Inv w (g.modifyItem i fun item =>
      { item with hasParent := false, carried := false }) := h.modifyItem rfl rfl
  rw [removeThing_eq]
  cases hs : g.getThingIndex i with
  | none => exact hmodified
  | some s =>
    exact hmodified.leave (s := s) (inventory_of_getThingIndex hs) (hmay.modifyItem rfl rfl)
      (o := none) fun j hj => by cases hj

theorem Inv.internalRemoveItem (h : Inv w g)
    (hmay : (g.items i).hasParent → (g.items i).canRemove → g.MayLeave w i) :
    Inv w (g.internalRemoveItem w i) := by
  unfold Game.internalRemoveItem
  split
  · exact h
  · rename_i hparent
    split
    · exact h
    · rename_i hremove
      exact h.removeThing (hmay (by simpa using hparent) (by simpa using hremove))

/-- A new item takes the place of another, which is taken off where it is worn with its ability
enabled; else the new one is put on. -/
theorem Inv.replaceThing (h : Inv w g) {id : UInt16} {count : ℕ}
    (hcalls : ∀ c ∈ calls, c.Neutral)
    (hmay : ∀ s, g.inventory s = some i → if g.inventoryAbilities s then g.MayLeave w i
      else g.MayEquip w (w.create id count (g.items i).carried) s True) :
    Inv w (g.replaceThing w i id count calls) := by
  have hcreated : Inv w (g.addItem (w.create id count (g.items i).carried)) :=
    h.keeps (keeps_addItem h _)
  unfold Game.replaceThing
  cases hs : g.getThingIndex i with
  | none => exact (hcreated.modifyItem rfl rfl).push hcalls
  | some s =>
    have hinventory := inventory_of_getThingIndex hs
    have hne : i ≠ g.next := (h.known s i hinventory).ne
    have hfresh (j : ℕ) (hj : some g.next = some j) :
        j < g.next + 1 ∧ ∀ t, g.inventory t ≠ some j := by
      cases hj
      exact ⟨Nat.lt_succ_self _, fun t ht => (h.known t _ ht).ne rfl⟩
    have hmay := hmay s hinventory
    have hitem : Function.update g.items g.next
        (w.create id count (g.items i).carried) i = g.items i := Function.update_of_ne hne _ _
    dsimp only
    split
    · rename_i habilities
      have habilities : g.inventoryAbilities s = true := habilities
      rw [if_pos habilities] at hmay
      have hcreated' := hmay.keeps (keeps_addItem h (w.create id count (g.items i).carried))
        (congrArg (fun item => item.id) hitem)
      have hleaves : MayLeave w ((g.addItem (w.create id count (g.items i).carried)).modifyItem i
          fun item => { item with hasParent := false }) i := hcreated'.modifyItem rfl rfl
      have hmodified : Inv w ((g.addItem (w.create id count (g.items i).carried)).modifyItem i
          fun item => { item with hasParent := false }) := hcreated.modifyItem rfl rfl
      exact (hmodified.push hcalls).leave hinventory hleaves hfresh
    · rename_i habilities
      have habilities : ¬ g.inventoryAbilities s = true := habilities
      rw [if_neg habilities] at hmay
      have hplaced := hcreated.setInventory (s := s) (Bool.not_eq_true _ ▸ habilities) _ hfresh
      have hneutral : ∀ c ∈ .release i s :: calls, c.Neutral := by
        simpa [Call.Neutral] using hcalls
      refine (hplaced.push hneutral).onPlayerEquip ?_
      have hnew : Function.update g.items g.next (w.create id count (g.items i).carried) g.next =
          w.create id count (g.items i).carried := Function.update_self _ _ _
      change MayEquip w _ (Function.update g.items g.next _ g.next) s _
      rw [hnew]
      exact hmay.congr rfl rfl (keeps_push (g := g) (w := w) hneutral).taken
        fun _ => setInventory_self

end Game

end OTServBR.Equipment
