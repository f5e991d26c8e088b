import Mathlib.Data.List.Perm.Basic
import OTServBR.Spawn.Basic

/-! # One monster for an entry

The monsters of an entry and its announcements are counted together. A check
looks at the monsters alone, so there is never more than one of both if no check
comes to an entry that is announced.
-/

namespace OTServBR.Spawn

variable {s s' : State} {e : Surroundings} {id j : ℕ} {room : Bool} {a : Action}

/-- The monsters of an entry that are in the game. -/
def live (s : State) (id : ℕ) : ℕ :=
  s.spawnedMap.countP fun p => p.1 == id && p.2 ∉ s.removed

/-- The announcements of an entry. -/
def pending (s : State) (id : ℕ) : ℕ := s.scheduled.countP (·.spawnId == id)

/-- Whether a check brings or announces a monster for an entry. -/
def isDue (e : Surroundings) (s : State) (p : ℕ × SpawnBlock) : Bool :=
  !s.spawnedMap.any (·.1 == p.1) && p.2.mType.canSpawn e.isday p.2.pos &&
    decide (s.now ≥ p.2.lastSpawn + p.2.interval) &&
    !(p.2.mType.isBlockable && e.findPlayer p.2.pos)

/-- The entries that a check comes to before it has brought enough monsters. -/
def turns (e : Surroundings) (s : State) : List (ℕ × SpawnBlock) :=
  let s := { s with checkSpawnEvent := none }.cleanup
  (s.spawnMap.filter (isDue e s)).take (max e.rateSpawn 1)

/-- No check comes to an entry while an announcement of it is on its way. -/
def NoOverlap (s : State) : Action → Prop
  | .checkSpawn e => ∀ p ∈ turns e s, pending s p.1 = 0
  | _ => True

/-- What holds of a spawn all the time if no check overlaps with an announcement. -/
structure Single (s : State) : Prop where
  one : ∀ id, live s id + pending s id ≤ 1
  fresh : ∀ m ∈ s.removed, m < s.monsters
  nodup : (s.spawnMap.map (·.1)).Nodup

/-! ## Changes of the maps -/

theorem keys_setLastSpawn : (s.setLastSpawn id).spawnMap.map (·.1) = s.spawnMap.map (·.1) := by
  rw [State.setLastSpawn, List.map_map]
  refine List.map_congr_left fun p _ => ?_
  dsimp only [Function.comp_apply]
  split <;> rfl

theorem foldl_setLastSpawn {l : List (ℕ × ℕ)} :
    ∃ spawnMap, l.foldl (fun s p => s.setLastSpawn p.1) s = { s with spawnMap := spawnMap } ∧
      spawnMap.map (·.1) = s.spawnMap.map (·.1) := by
  induction l generalizing s with
  | nil => exact ⟨s.spawnMap, rfl, rfl⟩
  | cons p l ih =>
    obtain ⟨spawnMap, heq, hkeys⟩ := ih (s := s.setLastSpawn p.1)
    exact ⟨spawnMap, heq, hkeys.trans keys_setLastSpawn⟩

theorem cleanup_eq : ∃ spawnMap, s.cleanup =
    { s with
      spawnMap := spawnMap
      spawnedMap := s.spawnedMap.filter fun p => p.2 ∉ s.removed } ∧
      spawnMap.map (·.1) = s.spawnMap.map (·.1) := by
  obtain ⟨spawnMap, heq, hkeys⟩ :=
    foldl_setLastSpawn (s := s) (l := s.spawnedMap.filter fun p => p.2 ∈ s.removed)
  refine ⟨spawnMap, ?_, hkeys⟩
  rw [State.cleanup, heq]

/-- The monsters that leave the map were not in the game any more. -/
theorem live_cleanup : live s.cleanup id = live s id := by
  obtain ⟨spawnMap, heq, -⟩ := cleanup_eq (s := s)
  rw [heq, live, live, List.countP_filter]
  refine List.countP_congr fun p _ => ?_
  simp

theorem live_eq_zero (h : s.spawnedMap.any (·.1 == id) = false) : live s id = 0 := by
  rw [live, List.countP_eq_zero]
  intro p hp
  rw [List.any_eq_false] at h
  rw [Bool.and_eq_true]
  exact fun hboth => h p hp hboth.1

theorem live_spawnMonster_le : live (s.spawnMonster id room) j ≤
    live s j + if id = j then 1 else 0 := by
  rw [State.spawnMonster]
  split
  · have hadd : live ({ s with
        spawnedMap := s.spawnedMap ++ [(id, s.monsters)]
        monsters := s.monsters + 1 }.setLastSpawn id) j =
          live s j + [(id, s.monsters)].countP fun p => p.1 == j && p.2 ∉ s.removed :=
      List.countP_append
    rw [hadd, List.countP_singleton]
    refine Nat.add_le_add_left ?_ _
    by_cases hid : id = j
    · rw [if_pos hid]
      split <;> omega
    · simp [hid]
  · exact Nat.le_add_right _ _

theorem pending_spawnMonster : pending (s.spawnMonster id room) j = pending s j := by
  rw [State.spawnMonster]
  split <;> rfl

theorem now_spawnMonster : (s.spawnMonster id room).now = s.now := by
  rw [State.spawnMonster]
  split <;> rfl

theorem any_spawnMonster_of_ne (h : id ≠ j) :
    (s.spawnMonster id room).spawnedMap.any (·.1 == j) = s.spawnedMap.any (·.1 == j) := by
  rw [State.spawnMonster]
  split
  · have hadd : ∀ l : List (ℕ × ℕ), (l ++ [(id, s.monsters)]).any (·.1 == j) =
        l.any (·.1 == j) := fun l => by simp [h]
    exact hadd _
  · rfl

theorem pending_announce {sb : SpawnBlock} {interval : ℕ} (h : interval ≠ 0) :
    pending (s.scheduleSpawn id sb interval room) j =
      pending s j + if id = j then 1 else 0 := by
  rw [State.scheduleSpawn, if_neg h, pending, pending, List.countP_append, List.countP_singleton]
  simp only [beq_iff_eq]

theorem live_announce {sb : SpawnBlock} {interval : ℕ} (h : interval ≠ 0) :
    live (s.scheduleSpawn id sb interval room) j = live s j := by
  rw [State.scheduleSpawn, if_neg h]
  rfl

theorem isDue_iff {p : ℕ × SpawnBlock} : isDue e s p = true ↔
    s.spawnedMap.any (·.1 == p.1) = false ∧ p.2.mType.canSpawn e.isday p.2.pos = true ∧
      s.now ≥ p.2.lastSpawn + p.2.interval ∧
        ¬ (p.2.mType.isBlockable && e.findPlayer p.2.pos) = true := by
  rw [isDue, Bool.and_eq_true, Bool.and_eq_true, Bool.and_eq_true, Bool.not_eq_true',
    decide_eq_true_iff, Bool.not_eq_true', Bool.not_eq_true, and_assoc, and_assoc]

/-- Whether an entry is due depends on the time and on its own monsters. -/
theorem isDue_congr {p : ℕ × SpawnBlock} (hnow : s'.now = s.now)
    (hany : s'.spawnedMap.any (·.1 == p.1) = s.spawnedMap.any (·.1 == p.1)) :
    isDue e s' p = isDue e s p := by
  rw [isDue, isDue, hnow, hany]

namespace Single

theorem setLastSpawn (h : Single s) : Single (s.setLastSpawn id) where
  one := h.one
  fresh := h.fresh
  nodup := by
    rw [keys_setLastSpawn]
    exact h.nodup

/-- A monster comes where there is none and none is announced. -/
theorem spawnMonster (h : Single s) (hnone : live s id + pending s id = 0) :
    Single (s.spawnMonster id room) where
  one j := by
    have hj := h.one j
    have hlive : live (s.spawnMonster id room) j ≤ live s j + if id = j then 1 else 0 :=
      live_spawnMonster_le
    rw [pending_spawnMonster]
    by_cases hid : id = j
    · subst hid
      rw [if_pos rfl] at hlive
      omega
    · rw [if_neg hid] at hlive
      omega
  fresh := by
    rw [State.spawnMonster]
    split
    · exact fun m hm => Nat.lt_succ_of_lt (h.fresh m hm)
    · exact h.fresh
  nodup := by
    rw [State.spawnMonster]
    split
    · rw [keys_setLastSpawn]
      exact h.nodup
    · exact h.nodup

/-- A monster is announced where there is none and none is announced. -/
theorem announce (h : Single s) {sb : SpawnBlock} {interval : ℕ} (hinterval : interval ≠ 0)
    (hnone : live s id + pending s id = 0) :
    Single (s.scheduleSpawn id sb interval room) where
  one j := by
    have hj := h.one j
    rw [live_announce hinterval, pending_announce hinterval]
    split
    · next hid =>
      subst hid
      omega
    · exact hj
  fresh := by
    rw [State.scheduleSpawn, if_neg hinterval]
    exact h.fresh
  nodup := by
    rw [State.scheduleSpawn, if_neg hinterval]
    exact h.nodup

/-- The entries that are left come to the same as before when another one was seen to. -/
theorem turns_congr {entries : List (ℕ × SpawnBlock)} {n : ℕ}
    (hdue : ∀ p ∈ entries, isDue e s' p = isDue e s p)
    (hpending : ∀ p ∈ entries, pending s' p.1 = pending s p.1)
    (h : ∀ p ∈ (entries.filter (isDue e s)).take n, pending s p.1 = 0) :
    ∀ p ∈ (entries.filter (isDue e s')).take n, pending s' p.1 = 0 := by
  rw [List.filter_congr hdue]
  intro p hp
  rw [hpending p (List.mem_filter.mp (List.mem_of_mem_take hp)).1]
  exact h p hp

/-- A check sees to one entry after the other, and each entry keeps to itself. -/
theorem checkEntries {entries : List (ℕ × SpawnBlock)} {n : ℕ} (h : Single s)
    (hnodup : (entries.map (·.1)).Nodup) (hn : n < max e.rateSpawn 1)
    (hturns : ∀ p ∈ (entries.filter (isDue e s)).take (max e.rateSpawn 1 - n),
      pending s p.1 = 0) : Single (State.checkEntries e entries n s) := by
  induction entries generalizing s n with
  | nil => exact h
  | cons p entries ih =>
    obtain ⟨id, sb⟩ := p
    rw [List.map_cons, List.nodup_cons] at hnodup
    have hne : ∀ p ∈ entries, id ≠ p.1 := by
      rintro p hp rfl
      exact hnodup.1 (List.mem_map.mpr ⟨p, hp, rfl⟩)
    have hskip : isDue e s (id, sb) ≠ true →
        ∀ p ∈ (entries.filter (isDue e s)).take (max e.rateSpawn 1 - n), pending s p.1 = 0 := by
      intro hdue
      rwa [List.filter_cons_of_neg hdue] at hturns
    rw [State.checkEntries]
    split
    · next hany =>
      exact ih h hnodup.2 hn (hskip fun hdue => by simp [(isDue_iff.mp hdue).1] at hany)
    next hany =>
    split
    · next hspawn =>
      exact ih h.setLastSpawn hnodup.2 hn
        (hskip fun hdue => by simp [(isDue_iff.mp hdue).2.1] at hspawn)
    next hspawn =>
    split
    swap
    · next htime =>
      exact ih h hnodup.2 hn (hskip fun hdue => htime (isDue_iff.mp hdue).2.2.1)
    next htime =>
    split
    · next hblock =>
      exact ih h.setLastSpawn hnodup.2 hn
        (hskip fun hdue => (isDue_iff.mp hdue).2.2.2 hblock)
    next hblock =>
    -- The entry gets its turn.
    rw [Bool.not_eq_true] at hany
    rw [Bool.not_eq_true, Bool.not_eq_false'] at hspawn
    rw [List.filter_cons_of_pos (isDue_iff.mpr ⟨hany, hspawn, htime, hblock⟩),
      show max e.rateSpawn 1 - n = max e.rateSpawn 1 - (n + 1) + 1 by omega,
      List.take_succ_cons] at hturns
    have hnone : live s id + pending s id = 0 := by
      rw [live_eq_zero hany, hturns _ List.mem_cons_self]
    have hrest := fun p hp => hturns p (List.mem_cons_of_mem _ hp)
    have hinterval : 3 * nonblockableSpawnInterval ≠ 0 := by decide
    dsimp only
    split
    · split
      · exact h.spawnMonster hnone
      · exact h.announce hinterval hnone
    · next hmore =>
      have hn' : n + 1 < max e.rateSpawn 1 := lt_of_not_ge fun hge => hmore (by omega)
      split
      · refine ih (h.spawnMonster hnone) hnodup.2 hn' (turns_congr (fun p hp => ?_)
          (fun p _ => pending_spawnMonster) hrest)
        exact isDue_congr now_spawnMonster (any_spawnMonster_of_ne (hne p hp))
      · refine ih (h.announce hinterval hnone) hnodup.2 hn' (turns_congr (fun p hp => ?_)
          (fun p hp => ?_) hrest)
        · rw [State.scheduleSpawn, if_neg hinterval]
          exact isDue_congr rfl rfl
        · rw [pending_announce hinterval, if_neg (hne p hp), Nat.add_zero]

theorem cleanup (h : Single s) : Single s.cleanup where
  one id := by
    rw [live_cleanup]
    obtain ⟨spawnMap, heq, -⟩ := cleanup_eq (s := s)
    rw [heq]
    exact h.one id
  fresh := by
    obtain ⟨spawnMap, heq, -⟩ := cleanup_eq (s := s)
    rw [heq]
    exact h.fresh
  nodup := by
    obtain ⟨spawnMap, heq, hkeys⟩ := cleanup_eq (s := s)
    rw [heq]
    dsimp only
    rw [hkeys]
    exact h.nodup

theorem checkSpawn (h : Single s) (hturns : ∀ p ∈ turns e s, pending s p.1 = 0) :
    Single (s.checkSpawn e) := by
  have hclean : Single { s with checkSpawnEvent := none }.cleanup :=
    cleanup ⟨h.one, h.fresh, h.nodup⟩
  have hpending : ∀ id, pending { s with checkSpawnEvent := none }.cleanup id = pending s id := by
    intro id
    obtain ⟨spawnMap, heq, -⟩ := cleanup_eq (s := { s with checkSpawnEvent := none })
    rw [heq]
    rfl
  have hcheck := hclean.checkEntries (e := e) (n := 0) hclean.nodup (by omega) fun p hp =>
    (hpending p.1).trans (hturns p hp)
  rw [State.checkSpawn]
  split
  · exact ⟨hcheck.one, hcheck.fresh, hcheck.nodup⟩
  · exact hcheck

theorem foldl_spawnMonster (h : Single s) {room : ℕ → Bool} {ids : List ℕ} (hnodup : ids.Nodup)
    (hnone : ∀ id ∈ ids, live s id + pending s id = 0) :
    Single (ids.foldl (fun s spawnId => s.spawnMonster spawnId (room spawnId)) s) := by
  induction ids generalizing s with
  | nil => exact h
  | cons id ids ih =>
    rw [List.nodup_cons] at hnodup
    refine ih (h.spawnMonster (hnone id List.mem_cons_self)) hnodup.2 fun j hj => ?_
    have hne : id ≠ j := by
      rintro rfl
      exact hnodup.1 hj
    have hlive : live (s.spawnMonster id (room id)) j ≤ live s j + if id = j then 1 else 0 :=
      live_spawnMonster_le
    have hj := hnone j (List.mem_cons_of_mem _ hj)
    rw [if_neg hne] at hlive
    dsimp only
    rw [pending_spawnMonster]
    omega

theorem startSpawnCheck (h : Single s) : Single s.startSpawnCheck := by
  rw [State.startSpawnCheck]
  split
  · exact ⟨h.one, h.fresh, h.nodup⟩
  · exact h

/-- A monster that leaves the game is not counted any more. -/
theorem removeCreature (h : Single s) {monster : ℕ} {handled : Bool} (hm : monster < s.monsters) :
    Single (s.removeCreature monster handled) := by
  obtain ⟨time, htime⟩ : ∃ time, s.removeCreature monster handled =
      { s with checkSpawnEvent := time, removed := s.removed ++ [monster] } := by
    rw [State.removeCreature, State.startSpawnCheck]
    split
    · exact ⟨_, rfl⟩
    · split <;> exact ⟨_, rfl⟩
  rw [htime]
  refine ⟨fun id => ?_, fun m hmem => ?_, h.nodup⟩
  · refine le_trans (Nat.add_le_add_right ?_ _) (h.one id)
    refine List.countP_mono_left fun p _ hp => ?_
    rw [Bool.and_eq_true, decide_eq_true_iff, List.mem_append, not_or] at hp
    rw [Bool.and_eq_true, decide_eq_true_iff]
    exact ⟨hp.1, hp.2.1⟩
  · rcases List.mem_append.mp hmem with hmem | hmem
    · exact h.fresh m hmem
    · rw [List.mem_singleton.mp hmem]
      exact hm

theorem removeMonster (h : Single s) {monster : ℕ} : Single (s.removeMonster monster) where
  one id := by
    have hle : live (s.removeMonster monster) id ≤ live s id :=
      List.Sublist.countP_le List.eraseP_sublist
    exact le_trans (Nat.add_le_add_right hle _) (h.one id)
  fresh := h.fresh
  nodup := h.nodup

/-- A scheduled event brings its monster, or announces it again. -/
theorem scheduleSpawn (h : Single s) {index : ℕ} {event : ScheduledSpawn}
    (hevent : s.scheduled[index]? = some event) :
    Single ({ s with scheduled := s.scheduled.eraseIdx index }.scheduleSpawn event.spawnId
      event.sb event.interval room) := by
  obtain ⟨hindex, hevent⟩ := List.getElem?_eq_some_iff.mp hevent
  have hcount : ∀ id, pending s id =
      pending { s with scheduled := s.scheduled.eraseIdx index } id +
        if event.spawnId = id then 1 else 0 := by
    intro id
    rw [pending, ← (List.getElem_cons_eraseIdx_perm hindex).countP_eq, List.countP_cons, hevent,
      pending]
    simp only [beq_iff_eq]
  have herase : Single { s with scheduled := s.scheduled.eraseIdx index } := by
    refine ⟨fun id => le_trans (Nat.add_le_add_left ?_ _) (h.one id), h.fresh, h.nodup⟩
    rw [hcount id]
    exact Nat.le_add_right _ _
  have hnone : live { s with scheduled := s.scheduled.eraseIdx index } event.spawnId +
      pending { s with scheduled := s.scheduled.eraseIdx index } event.spawnId = 0 := by
    have hone := h.one event.spawnId
    rw [hcount, if_pos rfl] at hone
    have hlive : live { s with scheduled := s.scheduled.eraseIdx index } event.spawnId =
        live s event.spawnId := rfl
    omega
  by_cases hinterval : event.interval = 0
  · rw [State.scheduleSpawn, if_pos hinterval]
    exact herase.spawnMonster hnone
  · exact herase.announce hinterval hnone

end Single

theorem single_apply (h : Single s) (ha : Enabled s a) (ha' : NoOverlap s a) :
    Single (apply s a) := by
  cases a with
  | startSpawnCheck => exact h.startSpawnCheck
  | checkSpawn e => exact h.checkSpawn ha'
  | scheduleSpawn index room =>
    obtain ⟨event, hevent, -⟩ := ha
    rw [apply, hevent]
    exact h.scheduleSpawn hevent
  | removeCreature monster handled => exact h.removeCreature ha.1
  | removeMonster monster => exact h.removeMonster
  | elapse time => exact ⟨h.one, h.fresh, h.nodup⟩

/-! ## Loading -/

/-- A state in which entries are added, with the ids from 1 on. -/
structure Loading (s : State) : Prop where
  keys : s.spawnMap.map (·.1) = List.range' 1 s.spawnMap.length
  spawned : s.spawnedMap = []
  scheduled : s.scheduled = []
  removed : s.removed = []

theorem Loading.addMonster (h : Loading s) {mType : MonsterType} {pos : Position}
    {direction interval : ℕ} : Loading (s.addMonster mType pos direction interval) where
  keys := by
    rw [State.addMonster]
    dsimp only
    rw [List.map_append, h.keys, List.length_append, List.length_singleton, List.range'_concat,
      List.map_singleton, Nat.one_mul, Nat.add_comm]
  spawned := h.spawned
  scheduled := h.scheduled
  removed := h.removed

theorem loading_loadFromXml {children : List Child} : Loading (loadFromXml children) := by
  unfold loadFromXml
  refine List.foldlRecOn _ _ ⟨rfl, rfl, rfl, rfl⟩ fun s h c _ => ?_
  split
  · split
    · exact h.addMonster
    · exact h
  · exact h

theorem single_initial {children : List Child} {start : Option (ℕ → Bool)} :
    Single (initial children start) := by
  have h : Loading (loadFromXml children) := loading_loadFromXml
  have hnone : ∀ id, live (loadFromXml children) id + pending (loadFromXml children) id = 0 := by
    intro id
    rw [live, pending, h.spawned, h.scheduled]
    rfl
  have hsingle : Single (loadFromXml children) := by
    refine ⟨fun id => le_of_eq_of_le (hnone id) (Nat.zero_le 1), fun m hm => ?_, ?_⟩
    · rw [h.removed] at hm
      cases hm
    · rw [h.keys]
      exact List.nodup_range'
  cases start with
  | none => exact hsingle
  | some room => exact hsingle.foldl_spawnMonster hsingle.nodup fun id _ => hnone id

/-- No entry ever has two monsters if no check comes to an entry that is announced. -/
theorem live_le_one {children : List Child} {start : Option (ℕ → Bool)} {l : List Action}
    (hrun : Run.Steps apply (fun s a => Enabled s a ∧ NoOverlap s a) (initial children start) l)
    (n id : ℕ) : live ((l.take n).foldl apply (initial children start)) id ≤ 1 := by
  rw [← List.take_append_drop n l, Run.steps_append] at hrun
  have hsingle := Run.invariant (P := Single)
    (fun s a h hok => single_apply h hok.1 hok.2) single_initial hrun.1
  exact le_trans (Nat.le_add_right _ _) (hsingle.one id)

instance : Decidable (Enabled s a) :=
  match a with
  | .checkSpawn _ => inferInstanceAs (Decidable (∃ time ∈ s.checkSpawnEvent, time ≤ s.now))
  | .scheduleSpawn index _ =>
    inferInstanceAs (Decidable (∃ event ∈ s.scheduled[index]?, event.time ≤ s.now))
  | .removeCreature monster _ =>
    inferInstanceAs (Decidable (monster < s.monsters ∧ monster ∉ s.removed))
  | .startSpawnCheck | .removeMonster _ | .elapse _ => isTrue trivial

instance : Decidable (NoOverlap s a) :=
  match a with
  | .checkSpawn e => inferInstanceAs (Decidable (∀ p ∈ turns e s, pending s p.1 = 0))
  | .startSpawnCheck | .removeMonster _ | .elapse _ | .removeCreature _ _ | .scheduleSpawn _ _ =>
    isTrue trivial

/-- A spawn of one monster that is announced. -/
def lonely (interval : ℕ) : State :=
  initial [⟨some { isBlockable := false }, {}, 0, interval⟩] (some fun _ => true)

/-- The monster dies, and two checks later another one is announced and comes. -/
def quietRun : List Action :=
  [.removeCreature 0 false, .elapse 10000, .checkSpawn {}, .elapse 10000, .checkSpawn {},
    .elapse 1400, .scheduleSpawn 0 true, .elapse 1400, .scheduleSpawn 0 true,
    .elapse 1400, .scheduleSpawn 0 true]

theorem live_quietRun : live (quietRun.foldl apply (lonely 10000)) 1 = 1 ∧
    live ((quietRun.take 10).foldl apply (lonely 10000)) 1 ≤ 1 :=
  ⟨by decide +kernel, live_le_one (l := quietRun) (by decide +kernel) 10 1⟩

/-- With two seconds between the checks, the second check announces the monster again. -/
def overlappingRun : List Action :=
  [.removeCreature 0 false, .elapse 2000, .checkSpawn {}, .elapse 2000, .checkSpawn {},
    .elapse 1400, .scheduleSpawn 0 true, .elapse 600, .checkSpawn {},
    .elapse 800, .scheduleSpawn 0 true, .elapse 600, .scheduleSpawn 0 true,
    .elapse 600, .checkSpawn {}, .elapse 200, .scheduleSpawn 0 true,
    .elapse 600, .scheduleSpawn 0 true, .elapse 600, .scheduleSpawn 0 true,
    .elapse 600, .checkSpawn {}, .elapse 200, .scheduleSpawn 0 true]

/-- Every event runs when it is due, and in the end the entry has two monsters. -/
theorem two_live_overlappingRun :
    Run.Steps apply Enabled (lonely 2000) overlappingRun ∧
      live (overlappingRun.foldl apply (lonely 2000)) 1 = 2 := by
  decide +kernel

end OTServBR.Spawn
