import OTServBR.Lib.Sweep
import OTServBR.Monster.Basic

/-! # What the notifications write

A notification writes the list of the monster that is told, and reads nothing
but the creatures. A round of notifications therefore writes every list once,
from what it was before the round.
-/

namespace OTServBR.Targets

/-- The floors of a view: all upper ones from the surface, two up and down from below. -/
theorem zRange_view {p q : Position} (hq : q.z.toNat < MAP_MAX_LAYERS)
    (h : p.z.toNat ≤ 7 ∧ q.z.toNat ≤ 7 ∨
      6 ≤ p.z.toNat ∧ 6 ≤ q.z.toNat ∧ ((p.z.toNat : ℤ) - q.z.toNat).natAbs ≤ 2) :
    (Map.Query.view p false).zRange.1 ≤ q.z.toNat ∧
      q.z.toNat ≤ (Map.Query.view p false).zRange.2 := by
  have hlayers : MAP_MAX_LAYERS = 16 := rfl
  have hview : (Map.Query.view p false).zRange =
      if (p.z.toNat : ℤ) > 7 then
        (max ((p.z.toNat : ℤ) - 2) 0, min ((p.z.toNat : ℤ) + 2) (MAP_MAX_LAYERS - 1))
      else if (p.z.toNat : ℤ) = 6 then (0, 8)
      else if (p.z.toNat : ℤ) = 7 then (0, 9)
      else (0, 7) := rfl
  rw [hview]
  split_ifs <;> constructor <;> dsimp only <;> omega

theorem inRange_of_near {p q : Position} (hp : p.z.toNat < MAP_MAX_LAYERS)
    (hq : q.z.toNat < MAP_MAX_LAYERS)
    (h : p.z.toNat ≤ 7 ∧ q.z.toNat ≤ 7 ∨
      6 ≤ p.z.toNat ∧ 6 ≤ q.z.toNat ∧ ((p.z.toNat : ℤ) - q.z.toNat).natAbs ≤ 2)
    (hx : ((p.x.toNat : ℤ) + (p.z.toNat - q.z.toNat) - q.x.toNat).natAbs ≤ 11)
    (hy : ((p.y.toNat : ℤ) + (p.z.toNat - q.z.toNat) - q.y.toNat).natAbs ≤ 11) :
    inRange p q := by
  have hlayers : MAP_MAX_LAYERS = 16 := rfl
  obtain ⟨hz₁, hz₂⟩ := Map.Query.zRange_mem (q := Map.Query.view p false) hp
  have hminZ : (Map.Query.view p false).ranges.minRangeZ.toInt =
      (Map.Query.view p false).zRange.1 := Int32.toInt_ofInt_of_le (by omega) (by omega)
  have hmaxZ : (Map.Query.view p false).ranges.maxRangeZ.toInt =
      (Map.Query.view p false).zRange.2 := Int32.toInt_ofInt_of_le (by omega) (by omega)
  have hmin : (-Map.maxViewportX).toInt = -11 ∧ (-Map.maxViewportY).toInt = -11 := by decide
  have hmax : Map.maxViewportX.toInt = 11 ∧ Map.maxViewportY.toInt = 11 := by decide
  refine decide_eq_true ⟨hp, ?_, ?_, ?_⟩
  · rw [hminZ, hmaxZ]
    exact zRange_view hq h
  · change _ + (-Map.maxViewportX).toInt + _ ≤ _ ∧ _ ≤ _ + Map.maxViewportX.toInt + _
    rw [hmin.1, hmax.1]
    omega
  · change _ + (-Map.maxViewportY).toInt + _ ≤ _ ∧ _ ≤ _ + Map.maxViewportY.toInt + _
    rw [hmin.2, hmax.2]
    omega

/-- Who sees a position is a spectator of it, and has it within the range of its own view. -/
theorem inRange_of_canSee {myPos pos : Position} (h : canSee myPos pos 10 10)
    (hmy : myPos.z.toNat < MAP_MAX_LAYERS) (hz : pos.z.toNat < MAP_MAX_LAYERS) :
    inRange myPos pos ∧ inRange pos myPos := by
  unfold canSee at h
  dsimp only at h
  split at h
  · cases h
  · split at h
    · cases h
    · have hnear := of_decide_eq_true h
      constructor
      · exact inRange_of_near hmy hz (by omega) (by omega) (by omega)
      · exact inRange_of_near hz hmy (by omega) (by omega) (by omega)

theorem canSee_self (pos : Position) : canSee pos pos 10 10 := by
  unfold canSee
  dsimp only
  split_ifs
  · omega
  · omega
  · exact decide_eq_true (by omega)

namespace World

variable {ι : Type*} [DecidableEq ι] {o : HashOrder ι} {w w' w'' : World ι} {m c s : ι}
  {l L L' : List ι}

@[simp] theorem modify_creature_self {f : Creature ι → Creature ι} :
    (w.modify c f).creature c = f (w.creature c) := Function.update_self c _ _

theorem modify_creature_of_ne {f : Creature ι → Creature ι} {x : ι} (hx : x ≠ c) :
    (w.modify c f).creature x = w.creature x := Function.update_of_ne hx _ _

/-! ## One list -/

/-- The world differs from the one before in one list and in who is idle. -/
structure Writes (w w' : World ι) (s : ι) (L : List ι) : Prop where
  creature : w'.creature = w.creature
  placed : w'.placed = w.placed
  targetList : w'.targetList = Function.update w.targetList s L

theorem writes_self : Writes w w s (w.targetList s) :=
  ⟨rfl, rfl, (Function.update_eq_self s w.targetList).symm⟩

theorem Writes.trans (h : Writes w w' s L) (h' : Writes w' w'' s L') : Writes w w'' s L' := by
  refine ⟨h'.creature.trans h.creature, h'.placed.trans h.placed, ?_⟩
  rw [h'.targetList, h.targetList, Function.update_idem]

theorem Writes.self (h : Writes w w' s L) : w'.targetList s = L := by
  rw [h.targetList, Function.update_self]

theorem writes_setTargetList : Writes w (w.setTargetList s L) s L := ⟨rfl, rfl, rfl⟩

/-- A monster becomes idle with an empty list only. -/
theorem writes_updateIdleStatus : Writes w (w.updateIdleStatus s) s (w.targetList s) := by
  unfold updateIdleStatus setIdle
  split
  · exact writes_self
  · dsimp only
    split
    case isFalse => exact ⟨rfl, rfl, (Function.update_eq_self s w.targetList).symm⟩
    case isTrue hidle =>
      simp only [Bool.and_eq_true, List.isEmpty_iff] at hidle
      rw [hidle.2]
      exact ⟨rfl, rfl, rfl⟩

theorem exists_writes_setIdle {idle : Bool} : ∃ L, Writes w (w.setIdle s idle) s L := by
  unfold setIdle
  split
  · exact ⟨_, writes_self⟩
  · dsimp only
    split
    · exact ⟨[], rfl, rfl, rfl⟩
    · exact ⟨w.targetList s, rfl, rfl, (Function.update_eq_self s w.targetList).symm⟩

/-- The list after a creature was found. -/
def found (w : World ι) (m c : ι) (pushFront : Bool) (L : List ι) : List ι :=
  if w.isOpponent m c ∧ c ∉ L then if pushFront then c :: L else L ++ [c] else L

/-- The list after a creature left. -/
def left (w : World ι) (m c : ι) (L : List ι) : List ι :=
  if w.isOpponent m c then L.erase c else L

/-- The list after a look around. -/
def rescan (o : HashOrder ι) (w : World ι) (m : ι) (L : List ι) : List ι :=
  (o.order ((w.getSpectators (w.creature m).position).erase m)).foldl (fun L c =>
    if w.sees m (w.creature c).position then w.found m c false L else L)
    (L.filter fun c => !((w.creature c).health ≤ 0 || !w.sees m (w.creature c).position))

section Congr
variable (h : w'.creature = w.creature)
include h

theorem isOpponent_congr : w'.isOpponent = w.isOpponent := by
  cases w
  cases w'
  subst h
  rfl

omit [DecidableEq ι] in
theorem sees_congr : w'.sees = w.sees := by
  funext m pos
  simp only [sees, h]

theorem found_congr : w'.found = w.found := by
  funext m c pushFront L
  simp only [found, isOpponent_congr h]

theorem left_congr : w'.left = w.left := by
  funext m c L
  simp only [left, isOpponent_congr h]

theorem rescan_congr (hplaced : w'.placed = w.placed) : w'.rescan o = w.rescan o := by
  funext m L
  simp only [rescan, getSpectators, h, hplaced, sees_congr h, found_congr h]

end Congr

theorem mem_found {pushFront : Bool} {x : ι} :
    x ∈ w.found m c pushFront L ↔ x ∈ L ∨ x = c ∧ w.isOpponent m c := by
  unfold found
  split
  case isTrue h =>
    cases pushFront
    · simp [h.1]
    · simp [h.1, or_comm]
  case isFalse h =>
    constructor
    · exact Or.inl
    · rintro (hx | ⟨rfl, hopponent⟩)
      · exact hx
      · exact not_not.mp fun hx => h ⟨hopponent, hx⟩

theorem nodup_found {pushFront : Bool} (hL : L.Nodup) : (w.found m c pushFront L).Nodup := by
  unfold found
  split
  case isTrue h =>
    cases pushFront
    · exact List.nodup_append.mpr ⟨hL, List.nodup_singleton c, by
        rintro a ha b hb rfl
        exact h.2 (List.mem_singleton.mp hb ▸ ha)⟩
    · exact List.nodup_cons.mpr ⟨h.2, hL⟩
  case isFalse => exact hL

theorem mem_left {x : ι} (hL : L.Nodup) :
    x ∈ w.left m c L ↔ x ∈ L ∧ ¬ (x = c ∧ w.isOpponent m c) := by
  unfold left
  split
  case isTrue h => simp [hL.mem_erase_iff, h, and_comm]
  case isFalse h => simp [h]

theorem nodup_left (hL : L.Nodup) : (w.left m c L).Nodup := by
  unfold left
  split
  · exact hL.erase c
  · exact hL

theorem mem_rescan {x : ι} : x ∈ w.rescan o m L ↔
    (x ∈ L ∧ 0 < (w.creature x).health ∧ w.sees m (w.creature x).position) ∨
      x ∈ (w.getSpectators (w.creature m).position).erase m ∧
        w.sees m (w.creature x).position ∧ w.isOpponent m x := by
  have hloop : ∀ l L : List ι, x ∈ l.foldl (fun L c =>
      if w.sees m (w.creature c).position then w.found m c false L else L) L ↔
      x ∈ L ∨ x ∈ l ∧ w.sees m (w.creature x).position ∧ w.isOpponent m x := by
    intro l
    induction l with
    | nil => simp
    | cons c l ih =>
      intro L
      rw [List.foldl_cons, ih]
      split
      case isTrue hsees =>
        rw [mem_found]
        constructor
        · rintro ((hx | ⟨rfl, hopponent⟩) | ⟨hx, h⟩)
          · exact .inl hx
          · exact .inr ⟨List.mem_cons_self, hsees, hopponent⟩
          · exact .inr ⟨List.mem_cons_of_mem c hx, h⟩
        · rintro (hx | ⟨hx, hsees', hopponent⟩)
          · exact .inl (.inl hx)
          · rcases List.mem_cons.mp hx with rfl | hx
            · exact .inl (.inr ⟨rfl, hopponent⟩)
            · exact .inr ⟨hx, hsees', hopponent⟩
      case isFalse hsees =>
        constructor
        · rintro (hx | ⟨hx, h⟩)
          · exact .inl hx
          · exact .inr ⟨List.mem_cons_of_mem c hx, h⟩
        · rintro (hx | ⟨hx, hsees', hopponent⟩)
          · exact .inl hx
          · rcases List.mem_cons.mp hx with rfl | hx
            · exact absurd hsees' hsees
            · exact .inr ⟨hx, hsees', hopponent⟩
  rw [rescan, hloop, (o.perm _).mem_iff, List.mem_filter]
  simp

theorem nodup_rescan (hL : L.Nodup) : (w.rescan o m L).Nodup := by
  unfold rescan
  refine List.foldlRecOn _ _ (hL.filter _) fun L hL c _ => ?_
  split
  · exact nodup_found hL
  · exact hL

/-! ## One notification -/

theorem writes_onCreatureFound {pushFront : Bool} :
    Writes w (w.onCreatureFound m c pushFront) m (w.found m c pushFront (w.targetList m)) := by
  have hadd : Writes w (if w.isOpponent m c then w.addTarget m c pushFront else w) m
      (w.found m c pushFront (w.targetList m)) := by
    unfold found addTarget
    by_cases hopponent : w.isOpponent m c = true
    · by_cases hc : c ∈ w.targetList m
      · rw [if_pos hopponent, if_pos hc, if_neg fun h => h.2 hc]
        exact writes_self
      · have hfound : w.isOpponent m c = true ∧ c ∉ w.targetList m := ⟨hopponent, hc⟩
        rw [if_pos hopponent, if_neg hc, if_pos hfound]
        exact writes_setTargetList
    · rw [if_neg hopponent, if_neg fun h => hopponent h.1]
      exact writes_self
  have hidle := writes_updateIdleStatus (s := m)
    (w := if w.isOpponent m c then w.addTarget m c pushFront else w)
  rw [hadd.self] at hidle
  exact hadd.trans hidle

theorem writes_onCreatureLeave :
    Writes w (w.onCreatureLeave m c) m (w.left m c (w.targetList m)) := by
  unfold onCreatureLeave left
  split
  · have hremove : Writes w (w.removeTarget m c) m ((w.targetList m).erase c) :=
      writes_setTargetList
    dsimp only
    split
    · have hidle := writes_updateIdleStatus (s := m) (w := w.removeTarget m c)
      rw [hremove.self] at hidle
      exact hremove.trans hidle
    · exact hremove
  · exact writes_self

theorem writes_updateTargetList :
    Writes w (w.updateTargetList o m) m (w.rescan o m (w.targetList m)) := by
  -- the loop reads nothing that it writes but the list
  have hloop : ∀ (l : List ι) {w' : World ι} {L : List ι}, Writes w w' m L →
      Writes w (l.foldl (fun w c =>
        if w.sees m (w.creature c).position then w.onCreatureFound m c false else w) w') m
        (l.foldl (fun L c =>
          if w.sees m (w.creature c).position then w.found m c false L else L) L) := by
    intro l
    induction l with
    | nil => exact fun h => h
    | cons c l ih =>
      intro w' L h
      rw [List.foldl_cons, List.foldl_cons]
      refine ih ?_
      rw [sees_congr h.creature, h.creature]
      split
      · have hfound : Writes w' (w'.onCreatureFound m c false) m
            (w'.found m c false (w'.targetList m)) := writes_onCreatureFound
        rw [found_congr h.creature, h.self] at hfound
        exact h.trans hfound
      · exact h
  exact hloop _ writes_setTargetList

/-! ## A round of notifications -/

/-- Who is in the list was told once, and wrote its list from what it was before. -/
structure Told (w w' : World ι) (l : List ι) (entry : ι → List ι → List ι) : Prop where
  creature : w'.creature = w.creature
  placed : w'.placed = w.placed
  of_mem : ∀ {s}, s ∈ l → w'.targetList s = entry s (w.targetList s)
  of_notMem : ∀ {s}, s ∉ l → w'.targetList s = w.targetList s

theorem told_foldl {f : World ι → ι → World ι} {entry : World ι → ι → List ι → List ι}
    (hf : ∀ w, ∀ s ∈ l, Writes w (f w s) s (entry w s (w.targetList s)))
    (hentry : ∀ w w', w'.creature = w.creature → w'.placed = w.placed → entry w' = entry w)
    (hl : l.Nodup) : Told w (l.foldl f w) l (entry w) := by
  have hloop : (l.foldl f w).creature = w.creature ∧ (l.foldl f w).placed = w.placed ∧
      (l.foldl f w).targetList = Sweep.sweep id id (entry w) l w.targetList := by
    clear hl
    induction l generalizing w with
    | nil => exact ⟨rfl, rfl, rfl⟩
    | cons s l ih =>
      have hs := hf w s List.mem_cons_self
      obtain ⟨hcreature, hplaced, htargetList⟩ :=
        ih (w := f w s) fun w x hx => hf w x (List.mem_cons_of_mem s hx)
      refine ⟨hcreature.trans hs.creature, hplaced.trans hs.placed, ?_⟩
      rw [List.foldl_cons, htargetList, hs.targetList, hentry _ _ hs.creature hs.placed]
      rfl
  obtain ⟨hcreature, hplaced, htargetList⟩ := hloop
  refine ⟨hcreature, hplaced, fun hs => ?_, fun hs => ?_⟩
  · rw [htargetList]
    exact Sweep.sweep_of_mem (hl.imp fun h => ⟨h, h⟩) hs
  · rw [htargetList]
    refine Sweep.sweep_of_forall_ne fun x hx => ?_
    rintro rfl
    exact hs hx

section Appear
variable {data : Creature ι} {pos newPos oldPos : Position}

/-- The world in which a placed creature is shown to the spectators. -/
def put (w : World ι) (c : ι) (data : Creature ι) (pos : Position) : World ι :=
  { w with
    creature := Function.update w.creature c { data with position := pos, isRemoved := false }
    placed := w.placed ++ [c]
    targetList := Function.update w.targetList c [] }

/-- What a spectator makes of its list when a creature appears. -/
def appeared (o : HashOrder ι) (w : World ι) (c s : ι) (L : List ι) : List ι :=
  if (w.creature s).kind ≠ .monster then L
  else if c = s then w.rescan o s L
  else w.found s c true L

theorem writes_onCreatureAppear :
    Writes w (w.onCreatureAppear o s c) s (w.appeared o c s (w.targetList s)) := by
  unfold onCreatureAppear appeared
  split
  · exact writes_self
  · split
    · have hidle := writes_updateIdleStatus (s := s) (w := w.updateTargetList o s)
      rw [writes_updateTargetList.self] at hidle
      exact writes_updateTargetList.trans hidle
    · exact writes_onCreatureFound

/-- What a spectator makes of its list when a creature moves. -/
def moved (o : HashOrder ι) (w : World ι) (c : ι) (newPos oldPos : Position) (s : ι)
    (L : List ι) : List ι :=
  if (w.creature s).kind ≠ .monster then L
  else if c = s then w.rescan o s L
  else if w.sees s newPos && !w.sees s oldPos then w.found s c true L
  else if !w.sees s newPos && w.sees s oldPos then w.left s c L
  else L

theorem writes_onCreatureMove :
    Writes w (w.onCreatureMove o s c newPos oldPos) s
      (w.moved o c newPos oldPos s (w.targetList s)) := by
  have hidle : ∀ {w' : World ι} {L : List ι}, Writes w w' s L →
      Writes w (w'.updateIdleStatus s) s L := by
    intro w' L h
    have hidle := writes_updateIdleStatus (s := s) (w := w')
    rw [h.self] at hidle
    exact h.trans hidle
  unfold onCreatureMove moved
  split
  · exact writes_self
  · split
    · exact hidle writes_updateTargetList
    · refine hidle ?_
      split
      · exact writes_onCreatureFound
      · split
        · exact writes_onCreatureLeave
        · exact writes_self

theorem appeared_congr (hcreature : w'.creature = w.creature) (hplaced : w'.placed = w.placed) :
    w'.appeared o c = w.appeared o c := by
  funext s L
  simp only [appeared, hcreature, rescan_congr hcreature hplaced, found_congr hcreature]

theorem moved_congr (hcreature : w'.creature = w.creature) (hplaced : w'.placed = w.placed) :
    w'.moved o c newPos oldPos = w.moved o c newPos oldPos := by
  funext s L
  simp only [moved, hcreature, rescan_congr hcreature hplaced, found_congr hcreature,
    left_congr hcreature, sees_congr hcreature]

omit [DecidableEq ι] in
theorem nodup_order (hl : l.Nodup) : (o.order l).Nodup := (o.perm l).nodup_iff.mpr hl

theorem told_placeCreature (hplaced : w.placed.Nodup) (hc : c ∉ w.placed) :
    Told (w.put c data pos) (w.placeCreature o c data pos)
      (o.order ((w.put c data pos).getSpectators pos)) ((w.put c data pos).appeared o c) := by
  have hput : (w.put c data pos).placed.Nodup := by
    refine List.nodup_append.mpr ⟨hplaced, List.nodup_singleton c, ?_⟩
    rintro a ha b hb rfl
    exact hc (List.mem_singleton.mp hb ▸ ha)
  exact told_foldl (fun _ _ _ => writes_onCreatureAppear) (fun _ _ => appeared_congr)
    (nodup_order (hput.filter _))

/-- Who is told of a move. -/
def watchers (w : World ι) (oldPos newPos : Position) : List ι :=
  w.placed.filter fun s =>
    inRange oldPos (w.creature s).position || inRange newPos (w.creature s).position

theorem told_moveCreature (hplaced : w.placed.Nodup) :
    Told (w.modify c fun a => { a with position := newPos }) (w.moveCreature o c newPos)
      (o.order (w.watchers (w.creature c).position newPos))
      ((w.modify c fun a => { a with position := newPos }).moved o c newPos
        (w.creature c).position) :=
  told_foldl (fun _ _ _ => writes_onCreatureMove) (fun _ _ => moved_congr)
    (nodup_order (hplaced.filter _))

end Appear

/-! ## Removal -/

theorem leaveMaster_creature_of_ne {x : ι} (hx : x ≠ c) :
    (w.leaveMaster c).creature x = w.creature x := by
  unfold leaveMaster
  split
  · split
    · rfl
    · exact modify_creature_of_ne hx
  · rfl

theorem leaveMaster_kind {x : ι} :
    ((w.leaveMaster c).creature x).kind = (w.creature x).kind := by
  by_cases hx : x = c
  · subst hx
    unfold leaveMaster
    split
    · split
      · rfl
      · rw [modify_creature_self]
    · rfl
  · rw [leaveMaster_creature_of_ne hx]

@[simp] theorem leaveMaster_placed : (w.leaveMaster c).placed = w.placed := by
  unfold leaveMaster
  split
  · split <;> rfl
  · rfl

@[simp] theorem leaveMaster_targetList : (w.leaveMaster c).targetList = w.targetList := by
  unfold leaveMaster
  split
  · split <;> rfl
  · rfl

theorem leaveMaster_congr (h : w'.creature = w.creature) :
    (w'.leaveMaster c).creature = (w.leaveMaster c).creature := by
  cases w
  cases w'
  subst h
  unfold leaveMaster
  dsimp only
  split
  · split <;> rfl
  · rfl

/-- What a spectator makes of its list when another creature is removed. -/
def parted (w : World ι) (c s : ι) (L : List ι) : List ι :=
  if (w.creature s).kind ≠ .monster then L else w.left s c L

theorem parted_congr (h : w'.creature = w.creature) : w'.parted c = w.parted c := by
  funext s L
  simp only [parted, h, left_congr h]

theorem writes_onRemoveCreature (hs : s ≠ c) :
    Writes w (w.onRemoveCreature s c) s (w.parted c s (w.targetList s)) := by
  unfold onRemoveCreature parted
  rw [if_neg hs.symm]
  dsimp only
  split
  · exact writes_self
  · rw [if_neg hs.symm]
    exact writes_onCreatureLeave

theorem told_onRemoveCreature (hl : l.Nodup) (hc : c ∉ l) :
    Told w (l.foldl (fun w s => w.onRemoveCreature s c) w) l (w.parted c) := by
  have hwrites : ∀ w : World ι, ∀ s ∈ l,
      Writes w (w.onRemoveCreature s c) s (w.parted c s (w.targetList s)) := by
    intro w s hs
    refine writes_onRemoveCreature ?_
    rintro rfl
    exact hc hs
  exact told_foldl hwrites (fun _ _ h _ => parted_congr h) hl

theorem exists_writes_onRemoveCreature_self :
    ∃ L, Writes (w.leaveMaster c) (w.onRemoveCreature c c) c L := by
  unfold onRemoveCreature
  rw [if_pos rfl]
  dsimp only
  split
  · exact ⟨_, writes_self⟩
  · rw [if_pos rfl]
    exact exists_writes_setIdle

/-- Spectators that come before the removed creature still find its master, those that come after
it do not. -/
theorem foldl_onRemoveCreature (hl : l.Nodup) :
    let v := l.foldl (fun w s => w.onRemoveCreature s c) w
    v.placed = w.placed ∧ (∀ x ≠ c, v.creature x = w.creature x) ∧
      (v.creature c).kind = (w.creature c).kind ∧
      ∀ s ≠ c, v.targetList s =
        if s ∈ l then
          (if s ∈ l.takeWhile (· != c) then w else w.leaveMaster c).parted c s (w.targetList s)
        else w.targetList s := by
  dsimp only
  by_cases hc : c ∈ l
  · obtain ⟨before, after, rfl⟩ := List.append_of_mem hc
    obtain ⟨hbefore, hafter, hapart⟩ := List.nodup_append.mp hl
    obtain ⟨hc', hafter⟩ := List.nodup_cons.mp hafter
    have hcbefore : c ∉ before := fun h => hapart c h c List.mem_cons_self rfl
    have htake : (before ++ c :: after).takeWhile (· != c) = before := by
      rw [List.takeWhile_append_of_pos, List.takeWhile_cons_of_neg (by simp), List.append_nil]
      intro x hx
      exact bne_iff_ne.mpr fun h => hcbefore (h ▸ hx)
    have htold := told_onRemoveCreature (w := w) hbefore hcbefore
    rw [htake, List.foldl_append, List.foldl_cons]
    obtain ⟨L, hself⟩ := exists_writes_onRemoveCreature_self (c := c)
      (w := before.foldl (fun w s => w.onRemoveCreature s c) w)
    have htold' := told_onRemoveCreature hafter hc' (w :=
      (before.foldl (fun w s => w.onRemoveCreature s c) w).onRemoveCreature c c)
    have hcreature := htold'.creature.trans hself.creature
    rw [leaveMaster_congr htold.creature] at hcreature
    refine ⟨?_, fun x hx => ?_, ?_, fun s hs => ?_⟩
    · rw [htold'.placed, hself.placed, leaveMaster_placed, htold.placed]
    · rw [hcreature, leaveMaster_creature_of_ne hx]
    · rw [hcreature, leaveMaster_kind]
    · have hmiddle :
          ((before.foldl (fun w s => w.onRemoveCreature s c) w).onRemoveCreature c c).targetList s =
            (before.foldl (fun w s => w.onRemoveCreature s c) w).targetList s := by
        rw [hself.targetList, Function.update_of_ne hs, leaveMaster_targetList]
      by_cases hsbefore : s ∈ before
      · have hsafter : s ∉ after := fun h => hapart s hsbefore s (List.mem_cons_of_mem c h) rfl
        rw [htold'.of_notMem hsafter, hmiddle, htold.of_mem hsbefore,
          if_pos (List.mem_append_left _ hsbefore), if_pos hsbefore]
      · by_cases hsafter : s ∈ after
        · have hs' : s ∈ before ++ c :: after :=
            List.mem_append_right before (List.mem_cons_of_mem c hsafter)
          rw [htold'.of_mem hsafter, hmiddle, htold.of_notMem hsbefore, if_pos hs',
            if_neg hsbefore, parted_congr (hself.creature.trans (leaveMaster_congr htold.creature))]
        · have hs' : s ∉ before ++ c :: after := by simp [hsbefore, hs, hsafter]
          rw [htold'.of_notMem hsafter, hmiddle, htold.of_notMem hsbefore, if_neg hs']
  · have htake : l.takeWhile (· != c) = l := by
      rw [← List.append_nil l, List.takeWhile_append_of_pos, List.takeWhile_nil]
      intro x hx
      exact bne_iff_ne.mpr fun h => hc (h ▸ hx)
    have htold := told_onRemoveCreature (w := w) hl hc
    refine ⟨htold.placed, fun x _ => by rw [htold.creature], by rw [htold.creature], fun s _ => ?_⟩
    rw [htake]
    split
    case isTrue hs => exact htold.of_mem hs
    case isFalse hs => rw [htold.of_notMem hs]

/-- The spectators of a creature that is removed, in the order in which they are told. -/
def mourners (o : HashOrder ι) (w : World ι) (c : ι) : List ι :=
  o.order (w.getSpectators (w.creature c).position)

theorem removeOne_spec (hplaced : w.placed.Nodup) :
    (w.removeOne o c).placed = w.placed.erase c ∧
      (∀ x ≠ c, (w.removeOne o c).creature x = w.creature x) ∧
      ((w.removeOne o c).creature c).isRemoved ∧
      ((w.removeOne o c).creature c).kind = (w.creature c).kind ∧
      ∀ s ≠ c, (w.removeOne o c).targetList s =
        if s ∈ w.mourners o c then
          (if s ∈ (w.mourners o c).takeWhile (· != c) then w else w.leaveMaster c).parted c s
            (w.targetList s)
        else w.targetList s := by
  obtain ⟨hplaced', hcreature, hkind, htargetList⟩ := foldl_onRemoveCreature (c := c)
    (w := { w with placed := w.placed.erase c }) (nodup_order (o := o) (hplaced.filter fun s =>
      inRange (w.creature c).position (w.creature s).position))
  let remove (a : Creature ι) : Creature ι := { a with isRemoved := true }
  refine ⟨hplaced', fun x hx => ?_, ?_, ?_, fun s hs => ?_⟩
  · exact (modify_creature_of_ne (f := remove) hx).trans (hcreature x hx)
  · exact congrArg Creature.isRemoved (modify_creature_self (f := remove))
  · exact (congrArg Creature.kind (modify_creature_self (f := remove))).trans hkind
  · refine (htargetList s hs).trans ?_
    have hparted : ({ w with placed := w.placed.erase c } : World ι).parted c = w.parted c :=
      parted_congr rfl
    have hparted' : (({ w with placed := w.placed.erase c } : World ι).leaveMaster c).parted c =
        (w.leaveMaster c).parted c := parted_congr (leaveMaster_congr rfl)
    unfold mourners getSpectators
    split
    · split
      · rw [hparted]
      · rw [hparted']
    · rfl

end World

end OTServBR.Targets
