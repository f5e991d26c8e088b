import OTServBR.Lib.Run
import OTServBR.Monster.Tracking

/-! # Removals, deaths and runs

A removal takes the creature out of every list it is in, unless the creature
has lost the master for whom it was an opponent. With the steps before, the
lists track the view along every run whose steps keep to what the
notifications handle.
-/

namespace OTServBR.Targets.World

variable {ι : Type*} [DecidableEq ι] {o : HashOrder ι} {w w' v : World ι} {m c x : ι}

/-! ## Removing -/

/-- A monster that is told of a removal still takes the creature for an opponent. -/
def Notices (o : HashOrder ι) (w : World ι) (m c : ι) : Prop :=
  (w.leaveMaster c).isProvoking c ∨ m ∈ (w.mourners o c).takeWhile (· != c)

theorem Live.isOpponent_leaveMaster (hm : w.Live m) (hmc : m ≠ c) :
    (w.leaveMaster c).isOpponent m c = (w.leaveMaster c).isProvoking c := by
  have hcreature := leaveMaster_creature_of_ne (w := w) hmc
  unfold World.isOpponent
  rw [hcreature, hm.master]

theorem Sound.tracked_removeOne (h : w.Sound)
    (hothers : ∀ m, w.Live m → m ≠ c → w.TracksBut c m ∧
      (c ∈ w.targetList m → w.Due m c ∧ w.Notices o m c)) :
    (w.removeOne o c).Sound ∧ (w.removeOne o c).Tracked := by
  obtain ⟨hplaced, hcreature, hgone, hkind, hlist⟩ := removeOne_spec (o := o) (c := c) h.nodup
  have hmem : ∀ {x}, x ∈ (w.removeOne o c).placed ↔ x ≠ c ∧ x ∈ w.placed := by
    intro x
    rw [hplaced, h.nodup.mem_erase_iff]
  have hold : ∀ {x}, x ∈ (w.removeOne o c).placed →
      (w.removeOne o c).creature x = w.creature x := fun hx => hcreature _ (hmem.mp hx).1
  constructor
  · refine h.of_fields (hplaced ▸ List.erase_sublist) (fun x hx => ?_) (fun x hx => ?_)
      (fun x hx => ?_) (fun x hx => ?_) fun x hx => ?_
    · rw [hold hx]
      exact h.floor x (hmem.mp hx).2
    · rw [hold hx]
    · rw [hold hx]
    · rw [hold hx]
      exact .inl rfl
    · by_cases hxc : x = c
      · rw [hxc]
        exact .inr hgone
      · rw [hcreature x hxc, hmem]
        exact hx.imp_left fun hx => ⟨hxc, hx⟩
  · intro m hm
    obtain ⟨hmc, hmplaced⟩ := hmem.mp hm.placed
    have hmonster := hcreature m hmc
    have hm' : w.Live m :=
      ⟨hmplaced, hmonster ▸ hm.monster, hmonster ▸ hm.master, hmonster ▸ hm.health⟩
    obtain ⟨hbut, hleaves⟩ := hothers m hm' hmc
    have hdue : ∀ {x}, x ≠ c → ((w.removeOne o c).Due m x ↔ w.Due m x) := by
      intro x hx
      have hprovoking : (w.removeOne o c).isProvoking x = w.isProvoking x := by
        have hsame := hcreature x hx
        refine isProvoking_congr (by rw [hsame]) (by rw [hsame]) fun master _ => ?_
        by_cases hmaster : master = c
        · rw [hmaster, hkind]
        · rw [hcreature master hmaster]
      rw [hm.due_iff, hm'.due_iff, hprovoking, hmem, hcreature x hx, sees, hmonster, sees,
        and_iff_right hx]
    -- whatever the monster takes the creature for, it forgets nobody else
    have hparted : ∀ {u : World ι}, (u.creature m).kind = .monster →
        (u.parted c m (w.targetList m)).Nodup ∧
          ∀ x, x ∈ u.parted c m (w.targetList m) ↔
            x ∈ w.targetList m ∧ ¬ (x = c ∧ u.isOpponent m c) := by
      intro u hu
      rw [parted, if_neg (not_not.mpr hu)]
      exact ⟨nodup_left hbut.nodup, fun x => mem_left hbut.nodup⟩
    have hnotDue : ¬ (w.removeOne o c).Due m c := fun hd => (hmem.mp hd.placed).1 rfl
    by_cases hs : m ∈ w.mourners o c
    · have hlist' := hlist m hmc
      rw [if_pos hs] at hlist'
      obtain ⟨hnodup, hmem'⟩ := hparted
        (u := if m ∈ (w.mourners o c).takeWhile (· != c) then w else w.leaveMaster c) (by
          split
          · exact hm'.monster
          · rw [leaveMaster_kind]
            exact hm'.monster)
      rw [← hlist'] at hnodup hmem'
      refine ⟨hnodup, fun x => ?_⟩
      rw [hmem']
      by_cases hx : x = c
      · subst hx
        refine iff_of_false (fun hx => hx.2 ⟨rfl, ?_⟩) hnotDue
        obtain ⟨hd, hnotices⟩ := hleaves hx.1
        split
        case isTrue => exact hd.opponent
        case isFalse hbefore =>
          rw [hm'.isOpponent_leaveMaster hmc]
          exact hnotices.resolve_right hbefore
      · rw [hdue hx, hbut.mem_iff x hx]
        exact and_iff_left fun h => hx h.1
    · refine ⟨?_, fun x => ?_⟩
      · rw [hlist m hmc, if_neg hs]
        exact hbut.nodup
      · rw [hlist m hmc, if_neg hs]
        by_cases hx : x = c
        · subst hx
          refine iff_of_false (fun hx => hs ?_) hnotDue
          have hd := (hleaves hx).1
          exact (o.perm _).mem_iff.mpr (List.mem_filter.mpr
            ⟨hmplaced, (h.inRange_of_sees hmplaced hd.placed hd.sees).2⟩)
        · rw [hdue hx, hbut.mem_iff x hx]

/-- The creatures of a world are those of an earlier one, but for some that were removed. -/
def Keeps (w w' : World ι) : Prop :=
  ∀ x, w'.creature x = w.creature x ∨ (w'.creature x).isRemoved

omit [DecidableEq ι] in
theorem Keeps.trans (h : w.Keeps w') (h' : w'.Keeps v) : w.Keeps v := by
  intro x
  rcases h' x with hx | hx
  · rw [hx]
    exact h x
  · exact .inr hx

omit [DecidableEq ι] in
theorem Keeps.isRemoved (h : w.Keeps w') (hc : (w.creature c).isRemoved) :
    (w'.creature c).isRemoved := by
  rcases h c with hx | hx
  · rwa [hx]
  · exact hx

theorem Sound.keeps_removeOne (h : w.Sound) : w.Keeps (w.removeOne o c) := by
  obtain ⟨-, hcreature, hgone, -, -⟩ := removeOne_spec (o := o) (c := c) h.nodup
  intro x
  by_cases hx : x = c
  · rw [hx]
    exact .inr hgone
  · exact .inl (hcreature x hx)

/-- The creature or its master was removed. -/
def Orphaned (w : World ι) (c : ι) : Prop :=
  (w.creature c).isRemoved ∨ ∃ master ∈ (w.creature c).master, (w.creature master).isRemoved

/-- The invariant of the removal of summons. -/
structure Cleared (w w' : World ι) : Prop where
  sound : w'.Sound
  tracked : w'.Tracked
  keeps : w.Keeps w'

theorem Sound.cleared_summons {n : ℕ}
    (hn : ∀ {w : World ι} {c}, w.Sound → w.Tracked → w.Orphaned c →
      w.Cleared (removeCreature o n w c))
    (h : w.Sound) (htracked : w.Tracked) (hgone : (w.creature c).isRemoved) :
    w.Cleared ((w.summons c).foldl (removeCreature o n) w) := by
  refine List.foldlRecOn _ _ (⟨h, htracked, fun x => .inl rfl⟩ : w.Cleared w) ?_
  intro v hv s hs
  have hmaster : (w.creature s).master = some c := of_decide_eq_true (List.mem_filter.mp hs).2
  have horphaned : v.Orphaned s := by
    rcases hv.keeps s with hsame | hremoved
    · refine .inr ⟨c, ?_, hv.keeps.isRemoved hgone⟩
      rw [hsame]
      exact hmaster
    · exact .inl hremoved
  have hcleared := hn hv.sound hv.tracked horphaned
  exact ⟨hcleared.sound, hcleared.tracked, hv.keeps.trans hcleared.keeps⟩

/-- The summons of a removed creature still have their master when they are removed themselves. -/
theorem Sound.cleared_removeCreature {n : ℕ} (h : w.Sound) (htracked : w.Tracked)
    (horphaned : w.Orphaned c) : w.Cleared (removeCreature o n w c) := by
  induction n generalizing w c with
  | zero => exact ⟨h, htracked, fun x => .inl rfl⟩
  | succ n ih =>
    unfold removeCreature
    split
    case isTrue => exact ⟨h, htracked, fun x => .inl rfl⟩
    case isFalse hplaced =>
      obtain ⟨master, hmaster, hremoved⟩ := horphaned.resolve_left hplaced
      have hleave : w.leaveMaster c = w := by
        unfold leaveMaster
        rw [Option.mem_def.mp hmaster]
        exact if_pos hremoved
      obtain ⟨hsound, htracked'⟩ := h.tracked_removeOne (o := o) (c := c) fun m hm hmc => by
        refine ⟨(htracked m hm).but, fun hcm => ?_⟩
        have hd := ((htracked m hm).mem_iff c).mp hcm
        refine ⟨hd, .inl ?_⟩
        rw [hleave, ← hm.isOpponent]
        exact hd.opponent
      have hkeeps := h.keeps_removeOne (o := o) (c := c)
      have hgone := (removeOne_spec (o := o) (c := c) h.nodup).2.2.1
      have hsummons := hsound.cleared_summons ih htracked' hgone
      exact ⟨hsummons.sound, hsummons.tracked, hkeeps.trans hsummons.keeps⟩

theorem Sound.tracked_removeCreature {n : ℕ} (h : w.Sound) (hc : c ∈ w.placed)
    (hothers : ∀ m, w.Live m → m ≠ c → w.TracksBut c m ∧
      (c ∈ w.targetList m → w.Due m c ∧ w.Notices o m c)) :
    (removeCreature o (n + 1) w c).Sound ∧ (removeCreature o (n + 1) w c).Tracked := by
  obtain ⟨hsound, htracked⟩ := h.tracked_removeOne hothers
  have hgone := (removeOne_spec (o := o) (c := c) h.nodup).2.2.1
  have hsummons := hsound.cleared_summons (o := o) (n := n)
    (fun hw ht horphaned => hw.cleared_removeCreature ht horphaned) htracked hgone
  rw [removeCreature, if_neg (by rw [h.isRemoved c hc]; simp)]
  exact ⟨hsummons.sound, hsummons.tracked⟩

/-! ## Dying -/

section Death
variable {health damage : ℕ} {newPos : Position}

theorem Sound.tracked_drainHealth (h : w.Sound) (htracked : w.Tracked) (hc : c ∈ w.placed)
    (hok : ∀ m, w.Live m → m ≠ c → w.Due m c → (damage : ℤ) < (w.creature c).health) :
    (w.drainHealth c damage).Sound ∧ (w.drainHealth c damage).Tracked := by
  refine ⟨h.modify (fun _ => rfl) (fun _ => rfl) (fun _ => rfl) (h.floor c hc), fun m hm => ?_⟩
  have hprovoking : ∀ {x}, (w.drainHealth c damage).isProvoking x = w.isProvoking x :=
    isProvoking_modify (fun _ => rfl) fun _ => rfl
  have hkind : ((w.drainHealth c damage).creature m).kind = (w.creature m).kind :=
    modify_field _ fun _ => rfl
  have hmaster : ((w.drainHealth c damage).creature m).master = (w.creature m).master :=
    modify_field _ fun _ => rfl
  have hposition : ∀ x, ((w.drainHealth c damage).creature x).position = (w.creature x).position :=
    fun x => modify_field _ fun _ => rfl
  have hself : ((w.drainHealth c damage).creature c).health =
      max 0 ((w.creature c).health - damage) := congrArg Creature.health modify_creature_self
  have hother : ∀ {x}, x ≠ c →
      ((w.drainHealth c damage).creature x).health = (w.creature x).health :=
    fun hx => congrArg Creature.health (modify_creature_of_ne hx)
  have hm' : w.Live m := by
    refine ⟨hm.placed, hkind ▸ hm.monster, hmaster ▸ hm.master, ?_⟩
    have hlive := hm.health
    by_cases hmc : m = c
    · rw [hmc, hself] at hlive
      rw [hmc]
      omega
    · rwa [hother hmc] at hlive
  have hsees : ∀ pos, (w.drainHealth c damage).sees m pos = w.sees m pos := by
    intro pos
    rw [sees, hposition, sees]
  refine ⟨(htracked m hm').nodup, fun x => ((htracked m hm').mem_iff x).trans ?_⟩
  rw [hm.due_iff, hm'.due_iff, hprovoking, hposition, hsees]
  refine and_congr_right fun hx => and_congr_right fun hprov => and_congr_left fun hsee => ?_
  by_cases hxc : x = c
  · subst hxc
    have hmx : m ≠ x := by
      rintro rfl
      rw [hm'.not_isProvoking] at hprov
      cases hprov
    rw [hself]
    constructor
    · intro hlive
      have hdamage := hok m hm' hmx (hm'.due_iff.mpr ⟨hx, hprov, hlive, hsee⟩)
      omega
    · omega
  · rw [hother hxc]

/-- The world after `death` and `setMaster(nullptr)`. -/
def died (w : World ι) (c : ι) (health : ℕ) : World ι :=
  (match (w.creature c).kind with
    | .player _ => w.modify c fun a => { a with health := health }
    | .monster => w.monsterDeath c
    | .npc => w).modify c fun a => { a with master := none }

/-- The invariant of the worlds after a death. -/
structure Dying (w w' : World ι) (c : ι) : Prop where
  placed : w'.placed = w.placed
  targetList : ∀ m ≠ c, w'.targetList m = w.targetList m
  kind : ∀ x, (w'.creature x).kind = (w.creature x).kind
  position : ∀ x, (w'.creature x).position = (w.creature x).position
  isRemoved : ∀ x, (w'.creature x).isRemoved = (w.creature x).isRemoved
  master : ∀ x, (w'.creature x).master = (w.creature x).master ∨ (w'.creature x).master = none
  summon : ∀ x ≠ c, w'.creature x = w.creature x ∨
    (w'.creature x).health = 0 ∧ (w'.creature x).master = none ∧
      (w.creature x).master = some c ∧ w.isPlayer c = false

theorem foldl_modify {f : Creature ι → Creature ι} {l : List ι} :
    (l.foldl (fun w s => w.modify s f) w).placed = w.placed ∧
      (l.foldl (fun w s => w.modify s f) w).targetList = w.targetList ∧
      (l.foldl (fun w s => w.modify s f) w).creature =
        Sweep.sweep id id (fun _ => f) l w.creature := by
  induction l generalizing w with
  | nil => exact ⟨rfl, rfl, rfl⟩
  | cons s l ih =>
    obtain ⟨hplaced, htargetList, hcreature⟩ := ih (w := w.modify s f)
    exact ⟨hplaced, htargetList, hcreature⟩

omit [DecidableEq ι] in
theorem Dying.refl : w.Dying w c :=
  ⟨rfl, fun _ _ => rfl, fun _ => rfl, fun _ => rfl, fun _ => rfl, fun _ => .inl rfl,
    fun _ _ => .inl rfl⟩

theorem Dying.modify (h : w.Dying w' c) {f : Creature ι → Creature ι}
    (hkind : ∀ a, (f a).kind = a.kind) (hposition : ∀ a, (f a).position = a.position)
    (hremoved : ∀ a, (f a).isRemoved = a.isRemoved)
    (hmaster : ∀ a, (f a).master = a.master ∨ (f a).master = none) :
    w.Dying (w'.modify c f) c := by
  refine ⟨h.placed, h.targetList, fun x => ?_, fun x => ?_, fun x => ?_, fun x => ?_,
    fun x hx => ?_⟩
  · rw [modify_field _ hkind, h.kind]
  · rw [modify_field _ hposition, h.position]
  · rw [modify_field _ hremoved, h.isRemoved]
  · by_cases hx : x = c
    · subst hx
      rw [modify_creature_self]
      rcases hmaster (w'.creature x) with hsame | hnone
      · rw [hsame]
        exact h.master x
      · exact .inr hnone
    · rw [modify_creature_of_ne hx]
      exact h.master x
  · rw [modify_creature_of_ne hx]
    exact h.summon x hx

theorem Sound.dying_monsterDeath (h : w.Sound) (hc : (w.creature c).kind = .monster) :
    w.Dying (w.monsterDeath c) c := by
  let kill (a : Creature ι) : Creature ι :=
    { a with health := max 0 (a.health - a.health), master := none }
  obtain ⟨hplaced, htargetList, hcreature⟩ :=
    foldl_modify (w := w) (f := kill) (l := w.summons c)
  have hnodup : (w.summons c).Nodup := h.nodup.filter _
  have heach : ∀ x, (w.monsterDeath c).creature x = w.creature x ∨
      (w.monsterDeath c).creature x = kill (w.creature x) ∧ (w.creature x).master = some c := by
    intro x
    change ((w.summons c).foldl (fun w s => w.modify s kill) w).creature x = _ ∨
      ((w.summons c).foldl (fun w s => w.modify s kill) w).creature x = _ ∧ _
    rw [hcreature]
    by_cases hx : x ∈ w.summons c
    · refine .inr ⟨Sweep.sweep_of_mem (hnodup.imp fun h => ⟨h, h⟩) hx, ?_⟩
      exact of_decide_eq_true (List.mem_filter.mp hx).2
    · refine .inl (Sweep.sweep_of_forall_ne fun s hs => ?_)
      rintro rfl
      exact hx hs
  refine ⟨hplaced, fun m hm => ?_, fun x => ?_, fun x => ?_, fun x => ?_, fun x => ?_,
    fun x _ => ?_⟩
  · exact (Function.update_of_ne hm _ _).trans (congrFun htargetList m)
  · rcases heach x with hx | ⟨hx, -⟩ <;> rw [hx]
  · rcases heach x with hx | ⟨hx, -⟩ <;> rw [hx]
  · rcases heach x with hx | ⟨hx, -⟩ <;> rw [hx]
  · rcases heach x with hx | ⟨hx, -⟩ <;> rw [hx]
    · exact .inl rfl
    · exact .inr rfl
  · rcases heach x with hx | ⟨hx, hmaster⟩ <;> rw [hx]
    · exact .inl rfl
    · refine .inr ⟨?_, rfl, hmaster, by rw [isPlayer, hc]⟩
      change max 0 ((w.creature x).health - (w.creature x).health) = 0
      rw [sub_self, max_self]

theorem Sound.dying (h : w.Sound) : w.Dying (w.died c health) c := by
  have hdeath : w.Dying (match (w.creature c).kind with
      | .player _ => w.modify c fun a => { a with health := health }
      | .monster => w.monsterDeath c
      | .npc => w) c := by
    split
    case h_1 =>
      exact Dying.refl.modify (fun _ => rfl) (fun _ => rfl) (fun _ => rfl) fun _ => .inl rfl
    case h_2 hc => exact h.dying_monsterDeath hc
    case h_3 => exact Dying.refl
  exact hdeath.modify (fun _ => rfl) (fun _ => rfl) (fun _ => rfl) fun _ => .inr rfl

omit [DecidableEq ι] in
theorem Dying.sound (h : w.Dying w' c) (hw : w.Sound) : w'.Sound := by
  have hsub : w'.placed.Sublist w.placed := by rw [h.placed]
  refine hw.of_fields hsub (fun x hx => ?_) (fun x _ => h.kind x)
    (fun x _ => h.isRemoved x) (fun x _ => h.master x) fun x hx => ?_
  · rw [h.position]
    exact hw.floor x (hsub.subset hx)
  · rwa [h.placed, h.isRemoved]

omit [DecidableEq ι] in
theorem Dying.live (h : w.Dying w' c) (hm : w'.Live m) (hmc : m ≠ c) :
    w.Live m ∧ w'.creature m = w.creature m := by
  rcases h.summon m hmc with hsame | ⟨hhealth, -⟩
  · exact ⟨⟨h.placed ▸ hm.placed, hsame ▸ hm.monster, hsame ▸ hm.master, hsame ▸ hm.health⟩, hsame⟩
  · exact absurd hm.health (by omega)

/-- A death changes nothing for the other creatures: the summons that die with their master are
those of a monster. -/
theorem Dying.due_iff (h : w.Dying w' c) (hw : w.Sound) (hm : w'.Live m) (hmc : m ≠ c)
    (hx : x ≠ c) : w'.Due m x ↔ w.Due m x := by
  obtain ⟨hm', hcreature⟩ := h.live hm hmc
  have hsees : ∀ pos, w'.sees m pos = w.sees m pos := by
    intro pos
    rw [sees, hcreature, sees]
  rw [hm.due_iff, hm'.due_iff, h.placed, h.position, hsees]
  refine and_congr_right fun hplaced => ?_
  rcases h.summon x hx with hsame | ⟨-, hnone, hmaster, hplayer⟩
  · rw [isProvoking_congr (h.kind x) (by rw [hsame]) fun master _ => h.kind master, hsame]
  · have hmonster := hw.monster x hplaced (by rw [hmaster]; simp)
    have hold : w.isProvoking x = false := by
      rw [isProvoking, hmonster, hmaster, Bool.false_or]
      exact hplayer
    have hnew : w'.isProvoking x = false := by
      rw [isProvoking, h.kind, hmonster, hnone]
      rfl
    rw [hold, hnew]
    simp

/-- A creature that dies is in no list. -/
theorem Dying.tracksBut (h : w.Dying w' c) (hw : w.Sound) (htracked : w.Tracked)
    (hc : (w.creature c).health ≤ 0) (hm : w'.Live m) (hmc : m ≠ c) :
    w'.TracksBut c m ∧ c ∉ w'.targetList m := by
  have hm' := htracked m (h.live hm hmc).1
  refine ⟨⟨?_, fun x hx => ?_⟩, ?_⟩
  · rw [h.targetList m hmc]
    exact hm'.nodup
  · rw [h.targetList m hmc, hm'.mem_iff, h.due_iff hw hm hmc hx]
  · rw [h.targetList m hmc, hm'.mem_iff]
    exact fun hd => absurd hd.health (by omega)

/-- A player that is moved to its temple instead of being removed comes into the sight of the
monsters there and of no monster that saw it before. -/
def RevivesWell (w : World ι) (c : ι) (health : ℕ) (temple : Option Position) : Prop :=
  ∀ pos ∈ temple, ∀ m, w.Live m → w.isProvoking c → w.sees m pos →
    (0 < health ↔ ¬ w.sees m (w.creature c).position)

theorem Sound.tracked_onDeath (h : w.Sound) (htracked : w.Tracked) (hc : c ∈ w.placed)
    (hhealth : (w.creature c).health ≤ 0) {temple : Option Position}
    (htemple : ∀ pos ∈ temple, w.isPlayer c ∧ pos.z.toNat < MAP_MAX_LAYERS)
    (hok : w.RevivesWell c health temple) :
    (w.onDeath o c health temple).Sound ∧ (w.onDeath o c health temple).Tracked := by
  have hdying : w.Dying (w.died c health) c := h.dying
  have hsound := hdying.sound h
  have hplaced : c ∈ (w.died c health).placed := by rwa [hdying.placed]
  cases temple with
  | none =>
    refine hsound.tracked_removeCreature hplaced fun m hm hmc => ?_
    obtain ⟨hbut, hnot⟩ := hdying.tracksBut h htracked hhealth hm hmc
    exact ⟨hbut, fun hmem => absurd hmem hnot⟩
  | some pos =>
    obtain ⟨hplayer, hz⟩ := htemple pos rfl
    have hnotMonster : (w.creature c).kind ≠ .monster := by
      intro hkind
      rw [isPlayer, hkind] at hplayer
      cases hplayer
    refine hsound.tracked_moveCreature hplaced hz (fun m hm hmc => ?_) fun hm => ?_
    · obtain ⟨hbut, hnot⟩ := hdying.tracksBut h htracked hhealth hm hmc
      obtain ⟨hm', hmonster⟩ := hdying.live hm hmc
      refine ⟨hbut, ?_⟩
      have hmaster : (w.creature c).master = none := by
        by_contra hne
        exact hnotMonster (h.monster c hc hne)
      have hmaster' : ((w.died c health).creature c).master = none := by
        rcases hdying.master c with hsame | hnone
        · exact hsame.trans hmaster
        · exact hnone
      have hprovoking : (w.died c health).isProvoking c = w.isProvoking c :=
        isProvoking_congr (hdying.kind c) (hmaster'.trans hmaster.symm)
          fun master _ => hdying.kind master
      have hlives : ((w.died c health).creature c).health = health := by
        unfold isPlayer at hplayer
        unfold died
        rw [modify_creature_self]
        split at hplayer
        case h_1 ignored hkind =>
          rw [hkind]
          exact congrArg Creature.health modify_creature_self
        case h_2 => cases hplayer
      have hsees : ∀ pos', (w.died c health).sees m pos' = w.sees m pos' := by
        intro pos'
        rw [sees, hmonster, sees]
      have hrevives := hok pos rfl m hm'
      rw [Follows, hprovoking, hlives, hsees, hsees, hdying.position]
      cases hnew : w.sees m pos <;> cases hold : w.sees m (w.creature c).position <;>
        simp only [hnew, hold] at hrevives
      · simp [hnot]
      · simp [hnot]
      · simpa [hnot] using hrevives
      · simpa [hnot] using hrevives
    · exact absurd ((hdying.kind c).symm.trans hm.monster) hnotMonster

end Death

/-! ## Runs -/

/-- The steps that the notifications handle. -/
def Ok (o : HashOrder ι) (w : World ι) : Action ι → Prop
  | .place c data pos => w.AppearsWell c data pos
  | .move c newPos => w.MovesWell c newPos
  | .remove c => ∀ m, w.Live m → m ≠ c → w.Due m c → w.Notices o m c
  | .drain c damage => ∀ m, w.Live m → m ≠ c → w.Due m c → (damage : ℤ) < (w.creature c).health
  | .death c health temple => w.RevivesWell c health temple
  | .follow _ _ _ => True

theorem Sound.tracked_onFollowCreatureComplete (h : w.Sound) (htracked : w.Tracked)
    {hasFollowPath : Bool} : (w.onFollowCreatureComplete m c hasFollowPath).Sound ∧
      (w.onFollowCreatureComplete m c hasFollowPath).Tracked := by
  obtain ⟨L, hwrites, hperm⟩ : ∃ L, Writes w (w.onFollowCreatureComplete m c hasFollowPath) m L ∧
      ((w.creature m).master = none → L.Perm (w.targetList m)) := by
    unfold onFollowCreatureComplete
    split
    case isFalse => exact ⟨_, writes_self, fun _ => .refl _⟩
    case isTrue hc =>
      have hfront := (List.perm_cons_erase hc).symm
      dsimp only
      split
      · exact ⟨_, writes_setTargetList, fun _ => hfront⟩
      · split
        case isTrue =>
          exact ⟨_, writes_setTargetList, fun _ => (List.perm_append_singleton _ _).trans hfront⟩
        case isFalse hmaster =>
          exact ⟨_, writes_setTargetList, fun hnone => absurd (by rw [hnone]; rfl) hmaster⟩
  refine ⟨h.congr hwrites.creature hwrites.placed,
    tracked_of_congr hwrites.creature hwrites.placed fun m' hm' => ?_⟩
  have htracks := htracked m' hm'
  by_cases hm : m' = m
  · subst hm
    have hperm := hperm hm'.master
    rw [hwrites.self]
    refine ⟨hperm.nodup_iff.mpr htracks.nodup, fun x => ?_⟩
    rw [hperm.mem_iff, htracks.mem_iff]
  · rw [hwrites.targetList, Function.update_of_ne hm]
    exact ⟨htracks.nodup, htracks.mem_iff⟩

theorem Sound.tracked_step {a : Action ι} (h : w.Sound) (htracked : w.Tracked) (hok : w.Ok o a) :
    (w.step o a).Sound ∧ (w.step o a).Tracked := by
  unfold step
  split
  case isFalse => exact ⟨h, htracked⟩
  case isTrue hpossible =>
    cases a with
    | place c data pos =>
      obtain ⟨hc, hremoved, hz, hdata⟩ := hpossible
      exact h.placeCreature htracked hc hremoved hz hdata hok
    | move c newPos => exact h.moveCreature htracked hpossible.1 hpossible.2 hok
    | remove c =>
      refine h.tracked_removeCreature hpossible fun m hm hmc =>
        ⟨(htracked m hm).but, fun hmem => ?_⟩
      have hd := ((htracked m hm).mem_iff c).mp hmem
      exact ⟨hd, hok m hm hmc hd⟩
    | drain c damage => exact h.tracked_drainHealth htracked hpossible hok
    | death c health temple =>
      obtain ⟨hc, hhealth, htemple⟩ := hpossible
      exact h.tracked_onDeath htracked hc hhealth htemple hok
    | follow m c hasFollowPath => exact h.tracked_onFollowCreatureComplete htracked

/-- The lists of the live monsters track their views in every world of a run from an empty map
whose steps the notifications handle. -/
theorem tracked_of_ok (hw : w.placed = []) {l : List (Action ι)}
    (h : Run.Steps (step o) (Ok o) w l) (n : ℕ) : ((l.take n).foldl (step o) w).Tracked := by
  have hnobody : ∀ {x}, x ∉ w.placed := by simp [hw]
  have hsound : w.Sound :=
    ⟨by rw [hw]; exact List.nodup_nil, fun _ hx => absurd hx hnobody,
      fun _ hx => absurd hx hnobody, fun _ hx => absurd hx hnobody, fun _ hx => absurd hx hnobody⟩
  have htracked : w.Tracked := fun m hm => absurd hm.placed hnobody
  have htake : Run.Steps (step o) (Ok o) w (l.take n) := by
    rw [← List.take_append_drop n l, Run.steps_append] at h
    exact h.1
  have hstep : ∀ (w : World ι) (a : Action ι), w.Sound ∧ w.Tracked → Ok o w a →
      (step o w a).Sound ∧ (step o w a).Tracked := fun w a hs hok => hs.1.tracked_step hs.2 hok
  have hrun : ((l.take n).foldl (step o) w).Sound ∧ ((l.take n).foldl (step o) w).Tracked :=
    Run.invariant hstep ⟨hsound, htracked⟩ htake
  exact hrun.2

/-! ## A monster and a player -/

/-- The order in which the spectators were placed. -/
def inOrder : HashOrder Bool := ⟨id, fun l => List.Perm.refl l⟩

def nobody : World Bool where
  creature := fun _ => { kind := .npc }

def monsterData : Creature Bool where
  kind := .monster

def playerData : Creature Bool where
  kind := .player false

/-- A player appears near a monster, walks out of its sight and is removed. -/
def visit : List (Action Bool) :=
  [.place false monsterData ⟨100, 100, 7⟩, .place true playerData ⟨105, 100, 7⟩,
    .move true ⟨111, 100, 7⟩, .move true ⟨110, 100, 7⟩, .remove true]

theorem tracked_of_ok_visit :
    ((visit.take 4).foldl (step inOrder) nobody).Tracked ∧
      ((visit.take 4).foldl (step inOrder) nobody).targetList false = [true] := by
  refine ⟨tracked_of_ok rfl ?_ 4, by decide⟩
  have hremove : Ok inOrder ((visit.take 4).foldl (step inOrder) nobody) (.remove true) := by
    change ∀ m, Live _ m → m ≠ true → Due _ m true → _ ∨ _
    decide
  exact ⟨⟨by decide, by decide⟩, ⟨by decide, by decide⟩, ⟨by decide, by decide⟩,
    ⟨by decide, by decide⟩, hremove, trivial⟩

/-- A player that appears eleven tiles away is in the list without being seen. -/
theorem not_tracked_edge : ¬ ([Action.place false monsterData ⟨100, 100, 7⟩,
    .place true playerData ⟨111, 100, 7⟩].foldl (step inOrder) nobody).Tracked := by
  intro h
  have hm := h false (by decide)
  have hmem := (hm.mem_iff true).mp (by decide)
  exact absurd hmem.sees (by decide)

end OTServBR.Targets.World
