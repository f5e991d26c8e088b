import Mathlib
import OTServBR.Condition.Basic

/-! # Damage over time

A condition deals the damages of its list one after the other. Each of them
counts its own time down at the thinks of the creature, and what a think takes
too much is lost. The condition itself ends by the clock, which is set to the
sum of the intervals.
-/

namespace OTServBR

/-- `CombatType_t` -/
inductive CombatType
  | COMBAT_NONE | COMBAT_PHYSICALDAMAGE | COMBAT_ENERGYDAMAGE | COMBAT_EARTHDAMAGE
  | COMBAT_FIREDAMAGE | COMBAT_UNDEFINEDDAMAGE | COMBAT_LIFEDRAIN | COMBAT_MANADRAIN
  | COMBAT_HEALING | COMBAT_DROWNDAMAGE | COMBAT_ICEDAMAGE | COMBAT_HOLYDAMAGE
  | COMBAT_DEATHDAMAGE
  deriving DecidableEq, Repr

def EVENT_CREATURE_THINK_INTERVAL : Int32 := 1000

/-- `Creature::onTickCondition`, with the combat type of the field on the creature's tile. -/
def onTickCondition (field : Option CombatType) (type : ConditionType) (bRemove : Bool) : Bool :=
  match field with
  | none => bRemove
  | some combatType =>
    if type = CONDITION_FIRE then combatType != .COMBAT_FIREDAMAGE
    else if type = CONDITION_ENERGY then combatType != .COMBAT_ENERGYDAMAGE
    else if type = CONDITION_POISON then combatType != .COMBAT_EARTHDAMAGE
    else if type = CONDITION_FREEZING then combatType != .COMBAT_ICEDAMAGE
    else if type = CONDITION_DAZZLED then combatType != .COMBAT_HOLYDAMAGE
    else if type = CONDITION_CURSED then combatType != .COMBAT_DEATHDAMAGE
    else if type = CONDITION_DROWN then combatType != .COMBAT_DROWNDAMAGE
    else if type = CONDITION_BLEEDING then combatType != .COMBAT_PHYSICALDAMAGE
    else bRemove

structure ConditionDamage where
  conditionType : ConditionType
  ticks : Int32 := 0
  endTime : ℤ := 0
  periodDamage : Int32 := 0
  periodDamageTick : Int32 := 0
  tickInterval : Int32 := 2000
  delayed : Bool := false
  damageList : List IntervalInfo := []

namespace ConditionDamage

variable (c : ConditionDamage) (now : ℤ)

def setTicks (newTicks : Int32) : ConditionDamage :=
  { c with ticks := newTicks, endTime := newTicks.toInt + now }

/-- The body of the loop of `addDamage`. -/
def pushDamage (time value : Int32) : ConditionDamage :=
  let c := { c with damageList := c.damageList ++ [{ timeLeft := time, value, interval := time }] }
  if c.ticks ≠ -1 then c.setTicks now (c.ticks + time) else c

def addDamage (rounds time value : Int32) : ConditionDamage :=
  let time := max time EVENT_CREATURE_THINK_INTERVAL
  if rounds = -1 then
    { c with periodDamage := value, tickInterval := time.abs, ticks := -1 }
  else if c.periodDamage > 0 then c
  else (fun c => pushDamage c now time value)^[rounds.toInt.toNat] c

/-- A condition without a list draws one between its least and its greatest damage, which are 0
in a condition that is built by `addDamage`: then there is none. -/
def init : ConditionDamage × Bool :=
  if c.periodDamage ≠ 0 then (c, true)
  else if c.damageList = [] then (c.setTicks now 0, false)
  else (c, true)

/-- The damage to deal and the condition, and none where there is no damage. -/
def getNextDamage : Option (Int32 × ConditionDamage) :=
  if c.periodDamage ≠ 0 then some (c.periodDamage, c)
  else
    match c.damageList with
    | damageInfo :: rest =>
      some (damageInfo.value, if c.ticks ≠ -1 then { c with damageList := rest } else c)
    | [] => none

/-- The damage that is dealt at once, and none where the condition does not start. -/
def startCondition : Option (List Int32 × ConditionDamage) :=
  let c := if c.ticks > 0 then { c with endTime := c.ticks.toInt + now } else c
  let (c, inited) := c.init now
  if inited then
    if !c.delayed then
      match c.getNextDamage with
      | some (damage, c) => some ([damage], c)
      | none => some ([], c)
    else some ([], c)
  else none

/-- `Condition::executeCondition` -/
def executeTicks (interval : Int32) : ConditionDamage × Bool :=
  if c.ticks = -1 then (c, true)
  else ({ c with ticks := max (c.ticks - interval) 0 }, decide (c.endTime ≥ now))

/-- What is dealt at a think, the condition after it, and whether it goes on. -/
def executeCondition (field : Option CombatType) (interval : Int32) :
    List Int32 × ConditionDamage × Bool :=
  if c.periodDamage ≠ 0 then
    let c := { c with periodDamageTick := c.periodDamageTick + interval }
    if c.periodDamageTick ≥ c.tickInterval then
      ([c.periodDamage], { c with periodDamageTick := 0 }.executeTicks now interval)
    else ([], c.executeTicks now interval)
  else
    match c.damageList with
    | damageInfo :: rest =>
      let bRemove := onTickCondition field c.conditionType (c.ticks != -1)
      let damageInfo := { damageInfo with timeLeft := damageInfo.timeLeft - interval }
      let (dealt, damageList) :=
        if damageInfo.timeLeft ≤ 0 then
          ([damageInfo.value],
            if bRemove then rest else { damageInfo with timeLeft := damageInfo.interval } :: rest)
        else ([], damageInfo :: rest)
      let c : ConditionDamage := { c with damageList }
      if bRemove then (dealt, c.executeTicks now interval)
      else
        let c := if c.ticks > 0 then { c with endTime := c.endTime + interval.toInt } else c
        (dealt, c.executeTicks now 0)
    | [] => ([], c.executeTicks now interval)

end ConditionDamage

/-- A creature with the one condition, and what it was dealt. -/
structure Target where
  condition : Option ConditionDamage
  dealt : List Int32

namespace Target

def addCondition (condition : ConditionDamage) (now : ℤ) : Target :=
  match condition.startCondition now with
  | some (dealt, condition) => { condition := some condition, dealt }
  | none => { condition := none, dealt := [] }

def executeConditions (t : Target) (now : ℤ) (field : Option CombatType) (interval : Int32) :
    Target :=
  match t.condition with
  | none => t
  | some condition =>
    let (dealt, condition, goesOn) := condition.executeCondition now field interval
    { condition := if goesOn then some condition else none, dealt := t.dealt ++ dealt }

/-- The thinks from the first one on, with the fields the creature stands on. -/
def run (condition : ConditionDamage) (start first : ℤ) (field : ℕ → Option CombatType) :
    ℕ → Target
  | 0 => addCondition condition start
  | n + 1 => (run condition start first field n).executeConditions
      (first + n * EVENT_CREATURE_THINK_INTERVAL.toInt) (field n) EVENT_CREATURE_THINK_INTERVAL

end Target

namespace ConditionDamage

/-- A call of `addDamage`. -/
structure Call where
  now : ℤ
  rounds : Int32
  time : Int32
  value : Int32

/-- The condition that is built by the calls. -/
def build (conditionType : ConditionType) (delayed : Bool) (calls : List Call) : ConditionDamage :=
  calls.foldl (fun c call => c.addDamage call.now call.rounds call.time call.value)
    { conditionType, delayed }

/-- What was dealt when the condition has ended is the list. -/
def Delivers (c : ConditionDamage) (start first : ℤ) (field : ℕ → Option CombatType) : Prop :=
  ∃ n, (Target.run c start first field n).condition = none ∧
    (Target.run c start first field n).dealt = c.damageList.map (·.value)

/-! ### The damages that wait -/

/-- The damages that the start leaves. -/
def rest (c : ConditionDamage) : List IntervalInfo :=
  if c.delayed then c.damageList else c.damageList.tail

/-- What a think leaves of a list. -/
def served : List IntervalInfo → List IntervalInfo
  | [] => []
  | damageInfo :: rest =>
    if damageInfo.timeLeft ≤ EVENT_CREATURE_THINK_INTERVAL then rest
    else { damageInfo with timeLeft := damageInfo.timeLeft - EVENT_CREATURE_THINK_INTERVAL } :: rest

/-- The first damage of the list is dealt at the next think. -/
def Due (l : List IntervalInfo) : Prop :=
  ∃ damageInfo ∈ l.head?, damageInfo.timeLeft ≤ EVENT_CREATURE_THINK_INTERVAL

/-- The thinks that a damage takes. -/
def thinks (damageInfo : IntervalInfo) : ℕ := ((damageInfo.timeLeft.toInt + 999) / 1000).toNat

def work (l : List IntervalInfo) : ℕ := (l.map thinks).sum

/-- The clock of the condition: the ticks and the end time that a think leaves. A field of its own
kind stops the ticks and puts the end off. -/
def tick (type : ConditionType) (field : Option CombatType) (clock : Int32 × ℤ) : Int32 × ℤ :=
  if onTickCondition field type true then
    (max (clock.1 - EVENT_CREATURE_THINK_INTERVAL) 0, clock.2)
  else
    (max (clock.1 - 0) 0,
      if clock.1 > 0 then clock.2 + EVENT_CREATURE_THINK_INTERVAL.toInt else clock.2)

/-- The clock after the thinks. -/
def clock (c : ConditionDamage) (start : ℤ) (field : ℕ → Option CombatType) : ℕ → Int32 × ℤ
  | 0 => (c.ticks, if c.ticks > 0 then c.ticks.toInt + start else c.endTime)
  | n + 1 => tick c.conditionType (field n) (c.clock start field n)

/-- No damage falls due on a field of its own kind, which would deal it without an end. -/
def Unrefreshed (c : ConditionDamage) (field : ℕ → Option CombatType) : Prop :=
  ∀ n, Due (served^[n] c.rest) → onTickCondition (field n) c.conditionType true = true

/-- The last damage falls due before the clock has run out. -/
def InTime (c : ConditionDamage) (start first : ℤ) (field : ℕ → Option CombatType) : Prop :=
  ∀ n : ℕ, n + 1 < work c.rest →
    first + n * EVENT_CREATURE_THINK_INTERVAL.toInt ≤ (c.clock start field (n + 1)).2

/-! ### Serving a list -/

section Serving

variable {l : List IntervalInfo} {damageInfo : IntervalInfo}

def Positive (l : List IntervalInfo) : Prop := ∀ damageInfo ∈ l, 0 < damageInfo.timeLeft.toInt

theorem toInt_think : EVENT_CREATURE_THINK_INTERVAL.toInt = 1000 := rfl

theorem toInt_sub_think {x : Int32} (h : 0 < x.toInt) :
    (x - EVENT_CREATURE_THINK_INTERVAL).toInt = x.toInt - 1000 := by
  have := x.toInt_lt
  rw [Int32.toInt_sub, toInt_think, Int.bmod_eq_of_le]
  all_goals omega

theorem le_think_iff {x : Int32} : x ≤ EVENT_CREATURE_THINK_INTERVAL ↔ x.toInt ≤ 1000 := by
  rw [Int32.le_iff_toInt_le, toInt_think]

theorem sub_think_le_zero_iff {x : Int32} (h : 0 < x.toInt) :
    x - EVENT_CREATURE_THINK_INTERVAL ≤ 0 ↔ x ≤ EVENT_CREATURE_THINK_INTERVAL := by
  rw [Int32.le_iff_toInt_le, toInt_sub_think h, le_think_iff, Int32.toInt_zero]
  omega

theorem Positive.served (h : Positive l) : Positive (served l) := by
  cases l with
  | nil => exact h
  | cons damageInfo l =>
    obtain ⟨hfirst, hrest⟩ := List.forall_mem_cons.mp h
    rw [ConditionDamage.served]
    split_ifs with hdue
    · exact hrest
    · refine List.forall_mem_cons.mpr ⟨?_, hrest⟩
      rw [le_think_iff] at hdue
      rw [toInt_sub_think hfirst]
      omega

theorem Positive.iterate_served (h : Positive l) (n : ℕ) :
    Positive (ConditionDamage.served^[n] l) := by
  induction n with
  | zero => exact h
  | succ n ih =>
    rw [Function.iterate_succ_apply']
    exact ih.served

/-- A think takes one off the work. -/
theorem Positive.work_served (h : Positive l) : work (ConditionDamage.served l) = work l - 1 := by
  cases l with
  | nil => rfl
  | cons damageInfo l =>
    obtain ⟨hfirst, -⟩ := List.forall_mem_cons.mp h
    rw [ConditionDamage.served]
    split_ifs with hdue
    · rw [le_think_iff] at hdue
      have hone : thinks damageInfo = 1 := by
        unfold thinks
        omega
      rw [work, work, List.map_cons, List.sum_cons, hone, Nat.add_sub_cancel_left]
    · rw [le_think_iff] at hdue
      have hless : thinks { damageInfo with
          timeLeft := damageInfo.timeLeft - EVENT_CREATURE_THINK_INTERVAL } =
          thinks damageInfo - 1 := by
        unfold thinks
        dsimp only
        rw [toInt_sub_think hfirst]
        omega
      have hpos : 1 ≤ thinks damageInfo := by
        unfold thinks
        omega
      rw [work, work, List.map_cons, List.sum_cons, List.map_cons, List.sum_cons, hless]
      omega

theorem Positive.work_iterate_served (h : Positive l) (n : ℕ) :
    work (ConditionDamage.served^[n] l) = work l - n := by
  induction n with
  | zero => rfl
  | succ n ih =>
    rw [Function.iterate_succ_apply', (h.iterate_served n).work_served, ih, Nat.sub_sub]

theorem Positive.work_eq_zero_iff (h : Positive l) : work l = 0 ↔ l = [] := by
  constructor
  · intro hwork
    cases l with
    | nil => rfl
    | cons damageInfo l =>
      have hfirst := h damageInfo List.mem_cons_self
      have hzero : thinks damageInfo = 0 := by
        rw [work, List.map_cons, List.sum_cons] at hwork
        omega
      unfold thinks at hzero
      omega
  · rintro rfl
    rfl

end Serving

/-! ### A think -/

variable {c : ConditionDamage} {now : ℤ} {field : Option CombatType}

/-- What a condition is once all calls of `addDamage` are made: it deals its list, and it ends. -/
structure Sound (c : ConditionDamage) : Prop where
  period : c.periodDamage = 0
  ticks : c.ticks ≠ -1
  positive : Positive c.damageList

theorem max_zero_ne (x : Int32) : max x 0 ≠ -1 := by
  rw [show max x 0 = if x ≤ 0 then 0 else x from rfl]
  split_ifs with h
  · decide
  · rintro rfl
    exact h (by decide)

/-- A think serves the list, and moves the clock. -/
theorem executeCondition_of_list (now : ℤ) (h : c.Sound) (hlist : c.damageList ≠ [])
    (hfield : Due c.damageList → onTickCondition field c.conditionType true = true) :
    ∃ dealt, c.executeCondition now field EVENT_CREATURE_THINK_INTERVAL =
      (dealt, { c with
        damageList := served c.damageList
        ticks := (tick c.conditionType field (c.ticks, c.endTime)).1
        endTime := (tick c.conditionType field (c.ticks, c.endTime)).2 },
        decide ((tick c.conditionType field (c.ticks, c.endTime)).2 ≥ now)) ∧
      dealt ++ (served c.damageList).map (·.value) = c.damageList.map (·.value) := by
  obtain ⟨damageInfo, l, hl⟩ := List.exists_cons_of_ne_nil hlist
  have hpositive : 0 < damageInfo.timeLeft.toInt := h.positive _ (hl ▸ List.mem_cons_self)
  have htime := sub_think_le_zero_iff hpositive
  unfold executeCondition executeTicks tick
  rw [if_neg (not_not.mpr h.period)]
  simp only [hl, bne_iff_ne.mpr h.ticks, served, htime]
  by_cases hdue : damageInfo.timeLeft ≤ EVENT_CREATURE_THINK_INTERVAL
  · have hremove := hfield ⟨damageInfo, by rw [hl]; rfl, hdue⟩
    simp only [if_pos hdue, hremove, if_true, if_neg h.ticks]
    exact ⟨_, rfl, rfl⟩
  · simp only [if_neg hdue]
    by_cases hremove : onTickCondition field c.conditionType true = true
    · simp only [hremove, if_true, if_neg h.ticks]
      exact ⟨_, rfl, rfl⟩
    · by_cases hpos : c.ticks > 0
      · simp only [hremove, if_pos hpos, if_neg h.ticks]
        exact ⟨_, rfl, rfl⟩
      · simp only [hremove, if_neg hpos, if_neg h.ticks]
        exact ⟨_, rfl, rfl⟩

/-- A think without a list only moves the ticks. -/
theorem executeCondition_of_nil (h : c.Sound) (hlist : c.damageList = []) :
    c.executeCondition now field EVENT_CREATURE_THINK_INTERVAL =
      ([], { c with ticks := max (c.ticks - EVENT_CREATURE_THINK_INTERVAL) 0 },
        decide (c.endTime ≥ now)) := by
  unfold executeCondition executeTicks
  rw [if_neg (not_not.mpr h.period)]
  simp only [hlist, if_neg h.ticks]

theorem fst_tick_ne (type : ConditionType) (clock : Int32 × ℤ) :
    (tick type field clock).1 ≠ -1 := by
  unfold tick
  split_ifs <;> exact max_zero_ne _

/-! ### The run -/

section Run

variable {start first : ℤ} {field : ℕ → Option CombatType} {n : ℕ} {c' : ConditionDamage}
  {dealt : List Int32}

/-- The thinks before have served the list and moved the clock. -/
structure Serving (c : ConditionDamage) (start : ℤ) (field : ℕ → Option CombatType) (n : ℕ)
    (c' : ConditionDamage) (dealt : List Int32) : Prop where
  sound : c'.Sound
  type : c'.conditionType = c.conditionType
  list : c'.damageList = served^[n] c.rest
  clock : (c'.ticks, c'.endTime) = c.clock start field n
  dealt : dealt ++ (served^[n] c.rest).map (·.value) = c.damageList.map (·.value)

theorem Sound.rest (h : c.Sound) : Positive c.rest := by
  intro damageInfo hmem
  unfold ConditionDamage.rest at hmem
  split_ifs at hmem
  · exact h.positive damageInfo hmem
  · exact h.positive damageInfo (List.mem_of_mem_tail hmem)

/-- A condition with a list starts. -/
theorem Sound.exists_serving (h : c.Sound) (hlist : c.damageList ≠ []) (start : ℤ)
    (field : ℕ → Option CombatType) :
    ∃ c' dealt, Target.addCondition c start = { condition := some c', dealt } ∧
      Serving c start field 0 c' dealt := by
  obtain ⟨damageInfo, l, hl⟩ := List.exists_cons_of_ne_nil hlist
  have hclock : (if c.ticks > 0 then { c with endTime := c.ticks.toInt + start } else c) =
      { c with endTime := (c.clock start field 0).2 } := by
    rw [ConditionDamage.clock]
    split_ifs <;> rfl
  have hinit : ({ c with endTime := (c.clock start field 0).2 } : ConditionDamage).init start =
      ({ c with endTime := (c.clock start field 0).2 }, true) := by
    unfold init
    rw [if_neg (not_not.mpr h.period), if_neg hlist]
  cases hdelayed : c.delayed with
  | true =>
    have hrest : c.rest = c.damageList := by rw [ConditionDamage.rest, hdelayed, if_pos rfl]
    refine ⟨{ c with endTime := (c.clock start field 0).2 }, [], ?_,
      ⟨h.period, h.ticks, h.positive⟩, rfl, hrest.symm, rfl, by rw [hrest]; rfl⟩
    unfold Target.addCondition startCondition
    rw [hclock]
    simp only [hinit]
    simp only [hdelayed, if_true, Bool.not_true, Bool.false_eq_true, if_false]
  | false =>
    have hrest : c.rest = l := by
      rw [ConditionDamage.rest, hdelayed, if_neg Bool.false_ne_true, hl, List.tail_cons]
    refine ⟨{ c with endTime := (c.clock start field 0).2, damageList := l }, [damageInfo.value],
      ?_, ⟨h.period, h.ticks, hrest ▸ h.rest⟩, rfl, hrest.symm, rfl, by rw [hrest, hl]; rfl⟩
    unfold Target.addCondition startCondition
    rw [hclock]
    simp only [hinit]
    simp only [hdelayed, if_true, Bool.not_false, getNextDamage, hl, h.period, ne_eq,
      not_true_eq_false, if_false, h.ticks, not_false_eq_true]

/-- A think of a condition that still has a list. -/
theorem Serving.think (h : Serving c start field n c' dealt) (hc : c.Sound)
    (hfield : c.Unrefreshed field) (hn : n < work c.rest) (now : ℤ) :
    ∃ c'' dealt', (Target.mk (some c') dealt).executeConditions now (field n)
        EVENT_CREATURE_THINK_INTERVAL =
      { condition := if now ≤ (c.clock start field (n + 1)).2 then some c'' else none
        dealt := dealt' } ∧ Serving c start field (n + 1) c'' dealt' := by
  have hpositive := hc.rest.iterate_served n
  have hlist : c'.damageList ≠ [] := by
    rw [h.list, ne_eq, ← hpositive.work_eq_zero_iff, hc.rest.work_iterate_served]
    omega
  have hremove : Due c'.damageList → onTickCondition (field n) c'.conditionType true = true := by
    rw [h.list, h.type]
    exact hfield n
  obtain ⟨more, hexecute, hmore⟩ := executeCondition_of_list now h.sound hlist hremove
  have hclock : tick c'.conditionType (field n) (c'.ticks, c'.endTime) =
      c.clock start field (n + 1) := by
    rw [h.clock, h.type, ConditionDamage.clock]
  have hserved : served c'.damageList = served^[n + 1] c.rest := by
    rw [h.list, Function.iterate_succ_apply']
  rw [hclock, hserved] at hexecute
  refine ⟨{ c' with
      damageList := served^[n + 1] c.rest
      ticks := (c.clock start field (n + 1)).1
      endTime := (c.clock start field (n + 1)).2 },
    dealt ++ more, ?_, ⟨⟨h.sound.period, ?_, ?_⟩, h.type, rfl, rfl, ?_⟩⟩
  · unfold Target.executeConditions
    simp only [hexecute, decide_eq_true_eq, ge_iff_le]
  · rw [← hclock]
    exact fst_tick_ne _ _
  · exact hc.rest.iterate_served (n + 1)
  · rw [← hserved, List.append_assoc, hmore, h.list]
    exact h.dealt

/-- As long as the clock has not run out the list is served. -/
theorem Sound.run_serving (hc : c.Sound) (hlist : c.damageList ≠ []) (hfield : c.Unrefreshed field)
    (first : ℤ) (hn : n ≤ work c.rest)
    (htime : ∀ i < n, first + i * EVENT_CREATURE_THINK_INTERVAL.toInt ≤
      (c.clock start field (i + 1)).2) :
    ∃ c' dealt, Target.run c start first field n = { condition := some c', dealt } ∧
      Serving c start field n c' dealt := by
  induction n with
  | zero => exact hc.exists_serving hlist start field
  | succ n ih =>
    obtain ⟨c', dealt, hrun, hserving⟩ := ih (by omega) fun i hi => htime i (by omega)
    obtain ⟨c'', dealt', hthink, hserving'⟩ := hserving.think hc hfield (by omega)
      (first + n * EVENT_CREATURE_THINK_INTERVAL.toInt)
    refine ⟨c'', dealt', ?_, hserving'⟩
    rw [Target.run, hrun, hthink, if_pos (htime n (by omega))]

/-- A condition that has ended stays ended. -/
theorem run_of_ended {m : ℕ} (h : (Target.run c start first field n).condition = none)
    (hm : n ≤ m) : Target.run c start first field m = Target.run c start first field n := by
  induction m, hm using Nat.le_induction with
  | base => rfl
  | succ m hm ih =>
    rw [Target.run, ih]
    unfold Target.executeConditions
    rw [h]

/-- A condition without a list ends. -/
theorem exists_ended (hrun : Target.run c start first field n = { condition := some c', dealt })
    (hsound : c'.Sound) (hlist : c'.damageList = []) :
    ∃ m, Target.run c start first field m = { condition := none, dealt } := by
  by_contra hnot
  have hwait : ∀ k, ∃ c'', Target.run c start first field (n + k) =
      { condition := some c'', dealt } ∧ c''.Sound ∧ c''.damageList = [] ∧
      c''.endTime = c'.endTime := by
    intro k
    induction k with
    | zero => exact ⟨c', hrun, hsound, hlist, rfl⟩
    | succ k ih =>
      obtain ⟨c'', hrun, hsound, hlist, hend⟩ := ih
      have hthink : Target.run c start first field (n + (k + 1)) =
          { condition := if first + ↑(n + k) * EVENT_CREATURE_THINK_INTERVAL.toInt ≤ c''.endTime
              then some { c'' with ticks := max (c''.ticks - EVENT_CREATURE_THINK_INTERVAL) 0 }
              else none
            dealt } := by
        rw [← Nat.add_assoc, Target.run, hrun]
        unfold Target.executeConditions
        simp only [executeCondition_of_nil hsound hlist, decide_eq_true_eq, ge_iff_le,
          List.append_nil]
      split_ifs at hthink with htime
      · exact ⟨_, hthink, ⟨hsound.period, max_zero_ne _, hsound.positive⟩, hlist, hend⟩
      · exact absurd ⟨_, hthink⟩ hnot
  obtain ⟨k, hk⟩ : ∃ k : ℕ, c'.endTime < first + ↑(n + k) * 1000 :=
    ⟨(c'.endTime - first).toNat + 1, by omega⟩
  obtain ⟨c'', hrun, hsound, hlist, hend⟩ := hwait k
  refine hnot ⟨n + k + 1, ?_⟩
  rw [Target.run, hrun]
  unfold Target.executeConditions
  rw [toInt_think]
  simp only [executeCondition_of_nil hsound hlist, decide_eq_true_eq, ge_iff_le,
    List.append_nil, hend, if_neg (not_le.mpr hk)]

/-- The think after a run that serves. -/
theorem Serving.run_succ (h : Serving c start field n c' dealt)
    (hrun : Target.run c start first field n = { condition := some c', dealt }) (hc : c.Sound)
    (hfield : c.Unrefreshed field) (hn : n < work c.rest) :
    ∃ c'' dealt', Target.run c start first field (n + 1) =
      { condition := if first + n * EVENT_CREATURE_THINK_INTERVAL.toInt ≤
          (c.clock start field (n + 1)).2 then some c'' else none
        dealt := dealt' } ∧ Serving c start field (n + 1) c'' dealt' := by
  obtain ⟨c'', dealt', hthink, hserving⟩ :=
    h.think hc hfield hn (first + n * EVENT_CREATURE_THINK_INTERVAL.toInt)
  exact ⟨c'', dealt', by rw [Target.run, hrun, hthink], hserving⟩

/-- Where the clock runs out too early something of the list is left. -/
theorem Sound.inTime_of_delivers (hc : c.Sound) (hlist : c.damageList ≠ [])
    (hfield : c.Unrefreshed field) (h : c.Delivers start first field) :
    c.InTime start first field := by
  by_contra hlate
  unfold InTime at hlate
  simp only [not_forall, not_le] at hlate
  obtain ⟨i, ⟨hi, hout⟩, hleast⟩ := Nat.findX hlate
  have htime : ∀ j < i, first + j * EVENT_CREATURE_THINK_INTERVAL.toInt ≤
      (c.clock start field (j + 1)).2 := by
    intro j hj
    by_contra hlate
    exact hleast j hj ⟨by omega, not_le.mp hlate⟩
  obtain ⟨c', dealt, hrun, hserving⟩ := hc.run_serving hlist hfield first (by omega) htime
  obtain ⟨c'', dealt', hend, hserving'⟩ := hserving.run_succ hrun hc hfield (by omega)
  rw [if_neg (not_le.mpr hout)] at hend
  have hleft : served^[i + 1] c.rest ≠ [] := by
    rw [ne_eq, ← (hc.rest.iterate_served (i + 1)).work_eq_zero_iff, hc.rest.work_iterate_served]
    omega
  obtain ⟨n, hnone, hall⟩ := h
  obtain hn | hn := le_or_gt n i
  · obtain ⟨c', dealt, hrun, -⟩ := hc.run_serving hlist hfield (n := n) first
      (by omega) fun j hj => htime j (by omega)
    rw [hrun] at hnone
    cases hnone
  · have hsame : Target.run c start first field n = Target.run c start first field (i + 1) :=
      run_of_ended (by rw [hend]) hn
    rw [hsame, hend] at hall
    have hdealt := congrArg List.length hserving'.dealt
    rw [show dealt' = _ from hall, List.length_append, List.length_map, List.length_map] at hdealt
    exact hleft (List.length_eq_zero_iff.mp (by omega))

/-- Where the clock does not run out too early the whole list is dealt. -/
theorem Sound.delivers_of_inTime (hc : c.Sound) (hlist : c.damageList ≠ [])
    (hfield : c.Unrefreshed field) (h : c.InTime start first field) :
    c.Delivers start first field := by
  have hfinish : ∀ n c' dealt, work c.rest ≤ n → Serving c start field n c' dealt →
      c'.damageList = [] ∧ dealt = c.damageList.map (·.value) := by
    intro n c' dealt hn hserving
    have hnil : served^[n] c.rest = [] := by
      rw [← (hc.rest.iterate_served n).work_eq_zero_iff, hc.rest.work_iterate_served]
      omega
    have hdealt := hserving.dealt
    rw [hnil, List.map_nil, List.append_nil] at hdealt
    exact ⟨hserving.list.trans hnil, hdealt⟩
  cases hwork : work c.rest with
  | zero =>
    obtain ⟨c', dealt, hrun, hserving⟩ := hc.run_serving hlist hfield (n := 0) first
      (Nat.zero_le _) nofun
    obtain ⟨hnil, hdealt⟩ := hfinish 0 c' dealt hwork.le hserving
    obtain ⟨m, hm⟩ := exists_ended hrun hserving.sound hnil
    exact ⟨m, by rw [hm], by rw [hm, hdealt]⟩
  | succ n =>
    obtain ⟨c', dealt, hrun, hserving⟩ := hc.run_serving hlist hfield (n := n) first
      (by omega) fun i hi => h i (by omega)
    obtain ⟨c'', dealt', hend, hserving'⟩ := hserving.run_succ hrun hc hfield (by omega)
    obtain ⟨hnil, hdealt⟩ := hfinish (n + 1) c'' dealt' (by omega) hserving'
    split_ifs at hend with htime
    · obtain ⟨m, hm⟩ := exists_ended hend hserving'.sound hnil
      exact ⟨m, by rw [hm], by rw [hm, hdealt]⟩
    · exact ⟨n + 1, by rw [hend], by rw [hend, hdealt]⟩

/-- A condition without a list does not start, and there is nothing to deal. -/
theorem Sound.delivers_of_nil (hc : c.Sound) (hlist : c.damageList = []) :
    c.Delivers start first field := by
  have hstart : c.startCondition start = none := by
    unfold startCondition init
    split_ifs
    · simp [hc.period, hlist]
    · simp [hc.period, hlist]
  refine ⟨0, ?_, ?_⟩
  · rw [Target.run, Target.addCondition, hstart]
  · rw [Target.run, Target.addCondition, hstart, hlist]
    rfl

theorem Sound.delivers_iff (hc : c.Sound) (hfield : c.Unrefreshed field) :
    c.Delivers start first field ↔ c.InTime start first field := by
  by_cases hlist : c.damageList = []
  · refine iff_of_true (hc.delivers_of_nil hlist) fun n hn => ?_
    have hrest : c.rest = [] := by
      unfold ConditionDamage.rest
      rw [hlist]
      split_ifs <;> rfl
    rw [hrest] at hn
    exact absurd hn (Nat.not_lt_zero _)
  · exact ⟨hc.inTime_of_delivers hlist hfield, hc.delivers_of_inTime hlist hfield⟩

theorem clock_of_clear (h : ∀ n, onTickCondition (field n) c.conditionType true = true) (n : ℕ) :
    (c.clock start field n).2 = (c.clock start field 0).2 := by
  induction n with
  | zero => rfl
  | succ n ih =>
    have hstep : (c.clock start field (n + 1)).2 = (c.clock start field n).2 := by
      change (tick c.conditionType (field n) (c.clock start field n)).2 = _
      unfold tick
      rw [if_pos (h n)]
    exact hstep.trans ih

/-- Away from fields of its own kind the condition has the sum of its intervals. -/
theorem inTime_iff_of_clear (h : ∀ n, onTickCondition (field n) c.conditionType true = true) :
    c.InTime start first field ↔ work c.rest ≤ 1 ∨
      first + (work c.rest - 2 : ℕ) * 1000 ≤ (c.clock start field 0).2 := by
  unfold InTime
  simp only [clock_of_clear h, toInt_think]
  constructor
  · intro htime
    refine or_iff_not_imp_left.mpr fun hwork => htime (work c.rest - 2) ?_
    omega
  · rintro (hwork | htime) n hn
    · omega
    · omega

end Run

/-! ### Building a condition -/

theorem zero_lt_max_think (time : Int32) : 0 < (max time EVENT_CREATURE_THINK_INTERVAL).toInt := by
  rw [show max time EVENT_CREATURE_THINK_INTERVAL = if time ≤ EVENT_CREATURE_THINK_INTERVAL then
    EVENT_CREATURE_THINK_INTERVAL else time from rfl]
  split_ifs with h
  · decide
  · rw [le_think_iff] at h
    omega

/-- What the calls keep: only a periodic damage makes a condition endless. -/
structure Building (c : ConditionDamage) : Prop where
  period : c.ticks ≠ -1 → c.periodDamage = 0
  positive : Positive c.damageList

theorem Building.pushDamage (h : c.Building) {time : Int32} (htime : 0 < time.toInt)
    (value : Int32) : (c.pushDamage now time value).Building := by
  have hpositive : Positive (c.damageList ++ [{ timeLeft := time, value, interval := time }]) := by
    intro damageInfo hmem
    obtain hmem | hmem := List.mem_append.mp hmem
    · exact h.positive damageInfo hmem
    · rw [List.mem_singleton.mp hmem]
      exact htime
  unfold ConditionDamage.pushDamage
  dsimp only
  split_ifs with hticks
  · exact ⟨fun _ => h.period hticks, hpositive⟩
  · exact ⟨h.period, hpositive⟩

theorem Building.addDamage (h : c.Building) (rounds time value : Int32) :
    (c.addDamage now rounds time value).Building := by
  unfold ConditionDamage.addDamage
  dsimp only
  split_ifs with hrounds hperiod
  · exact ⟨fun hticks => absurd rfl hticks, h.positive⟩
  · exact h
  · induction rounds.toInt.toNat with
    | zero => exact h
    | succ n ih =>
      rw [Function.iterate_succ_apply']
      exact ih.pushDamage (zero_lt_max_think time) value

theorem building_build (conditionType : ConditionType) (delayed : Bool) (calls : List Call) :
    (build conditionType delayed calls).Building := by
  unfold build
  induction calls using List.reverseRecOn with
  | nil => exact ⟨fun _ => rfl, nofun⟩
  | append_singleton calls call ih =>
    rw [List.foldl_append]
    exact ih.addDamage call.rounds call.time call.value

/-- Damage over time that is not refreshed deals its whole list just in case the last damage falls
due before the clock has run out. -/
theorem delivers_iff_inTime (conditionType : ConditionType) (delayed : Bool) (calls : List Call)
    (start first : ℤ) (field : ℕ → Option CombatType)
    (hfinite : (build conditionType delayed calls).ticks ≠ -1)
    (hfield : (build conditionType delayed calls).Unrefreshed field) :
    (build conditionType delayed calls).Delivers start first field ↔
      (build conditionType delayed calls).InTime start first field := by
  have hbuild := building_build conditionType delayed calls
  exact Sound.delivers_iff ⟨hbuild.period hfinite, hfinite, hbuild.positive⟩ hfield

/-- Two rounds of a second. -/
theorem delivers_iff_inTime_seconds :
    (build CONDITION_FIRE false [⟨0, 2, 1000, -10⟩]).Delivers 0 500 (fun _ => none) ↔
      (build CONDITION_FIRE false [⟨0, 2, 1000, -10⟩]).InTime 0 500 (fun _ => none) :=
  delivers_iff_inTime CONDITION_FIRE false [⟨0, 2, 1000, -10⟩] 0 500 (fun _ => none) (by decide)
    fun _ _ => rfl

/-- Five rounds of a second and a millisecond: the first is dealt at once, and the others take two
thinks each. -/
theorem not_delivers_five_rounds :
    ¬(build CONDITION_FIRE false [⟨0, 5, 1001, -10⟩]).Delivers 0 500 (fun _ => none) := by
  intro h
  have hbuild := building_build CONDITION_FIRE false [⟨0, 5, 1001, -10⟩]
  have hsound : (build CONDITION_FIRE false [⟨0, 5, 1001, -10⟩]).Sound :=
    ⟨hbuild.period (by decide), by decide, hbuild.positive⟩
  have htime := hsound.inTime_of_delivers (by decide) (fun _ _ => rfl) h
  rw [inTime_iff_of_clear fun _ => rfl] at htime
  exact absurd htime (by decide)

end ConditionDamage

end OTServBR
