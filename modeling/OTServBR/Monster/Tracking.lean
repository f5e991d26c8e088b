import OTServBR.Monster.Notify

/-! # A target list tracks the view

A list holds the living opponents in sight. A creature that appears or moves
keeps it so unless it appears out of the sight of a monster that is told, or is
dead when it comes into sight.
-/

namespace OTServBR.Targets.World

variable {ι : Type*} [DecidableEq ι] {o : HashOrder ι} {w w' v : World ι} {m c x : ι} {L : List ι}

/-! ## What is claimed -/

/-- A monster that lives and was not summoned. -/
structure Live (w : World ι) (m : ι) : Prop where
  placed : m ∈ w.placed
  monster : (w.creature m).kind = .monster
  master : (w.creature m).master = none
  health : 0 < (w.creature m).health

instance : Decidable (w.Live m) :=
  decidable_of_iff (m ∈ w.placed ∧ (w.creature m).kind = .monster ∧
    (w.creature m).master = none ∧ 0 < (w.creature m).health)
    ⟨fun h => ⟨h.1, h.2.1, h.2.2.1, h.2.2.2⟩, fun h => ⟨h.1, h.2, h.3, h.4⟩⟩

/-- A living opponent in sight. -/
structure Due (w : World ι) (m c : ι) : Prop where
  placed : c ∈ w.placed
  opponent : w.isOpponent m c
  health : 0 < (w.creature c).health
  sees : w.sees m (w.creature c).position

instance : Decidable (w.Due m c) :=
  decidable_of_iff (c ∈ w.placed ∧ w.isOpponent m c ∧ 0 < (w.creature c).health ∧
    w.sees m (w.creature c).position)
    ⟨fun h => ⟨h.1, h.2.1, h.2.2.1, h.2.2.2⟩, fun h => ⟨h.1, h.2, h.3, h.4⟩⟩

structure Tracks (w : World ι) (m : ι) : Prop where
  nodup : (w.targetList m).Nodup
  mem_iff : ∀ c, c ∈ w.targetList m ↔ w.Due m c

/-- The list of every live monster tracks its view. -/
def Tracked (w : World ι) : Prop := ∀ m, w.Live m → w.Tracks m

/-- The list tracks the view but for one creature. -/
structure TracksBut (w : World ι) (c m : ι) : Prop where
  nodup : (w.targetList m).Nodup
  mem_iff : ∀ x ≠ c, x ∈ w.targetList m ↔ w.Due m x

/-- Nobody is on the map twice, off its floors or after a removal, and only monsters have a master,
who is on the map or was removed from it. -/
structure Sound (w : World ι) : Prop where
  nodup : w.placed.Nodup
  floor : ∀ c ∈ w.placed, (w.creature c).position.z.toNat < MAP_MAX_LAYERS
  isRemoved : ∀ c ∈ w.placed, (w.creature c).isRemoved = false
  monster : ∀ c ∈ w.placed, (w.creature c).master ≠ none → (w.creature c).kind = .monster
  master : ∀ c ∈ w.placed, ∀ master ∈ (w.creature c).master,
    master ∈ w.placed ∨ (w.creature master).isRemoved

theorem Tracks.but (h : w.Tracks m) : w.TracksBut c m := ⟨h.nodup, fun x _ => h.mem_iff x⟩

theorem TracksBut.tracks (h : w.TracksBut c m) (hc : c ∈ w.targetList m ↔ w.Due m c) :
    w.Tracks m := by
  refine ⟨h.nodup, fun x => ?_⟩
  by_cases hx : x = c
  · rw [hx]
    exact hc
  · exact h.mem_iff x hx

omit [DecidableEq ι] in
theorem isProvoking_congr (hkind : (w'.creature x).kind = (w.creature x).kind)
    (hmaster : (w'.creature x).master = (w.creature x).master)
    (h : ∀ master ∈ (w.creature x).master,
      (w'.creature master).kind = (w.creature master).kind) :
    w'.isProvoking x = w.isProvoking x := by
  unfold isProvoking isPlayer
  rw [hkind, hmaster]
  cases hx : (w.creature x).master with
  | none => rfl
  | some master =>
    dsimp only
    rw [h master (Option.mem_def.mpr hx)]

theorem Live.isOpponent (h : w.Live m) : w.isOpponent m x = w.isProvoking x := by
  unfold World.isOpponent
  rw [h.master]

omit [DecidableEq ι] in
/-- A monster without a master is nobody's target. -/
theorem Live.not_isProvoking (h : w.Live m) : w.isProvoking m = false := by
  unfold isProvoking
  rw [h.monster, h.master]
  rfl

theorem Live.due_iff (h : w.Live m) : w.Due m x ↔ x ∈ w.placed ∧ w.isProvoking x ∧
    0 < (w.creature x).health ∧ w.sees m (w.creature x).position := by
  rw [← h.isOpponent (x := x)]
  exact ⟨fun h => ⟨h.1, h.2, h.3, h.4⟩, fun h => ⟨h.1, h.2.1, h.2.2.1, h.2.2.2⟩⟩

omit [DecidableEq ι] in
/-- Who sees a creature is among the spectators of its position, and the other way around. -/
theorem Sound.inRange_of_sees (h : w.Sound) (hm : m ∈ w.placed) (hx : x ∈ w.placed)
    (hsees : w.sees m (w.creature x).position) :
    inRange (w.creature m).position (w.creature x).position ∧
      inRange (w.creature x).position (w.creature m).position :=
  inRange_of_canSee hsees (h.floor m hm) (h.floor x hx)

/-- Every provoking creature in sight lives. -/
def NoneDead (w : World ι) (m : ι) : Prop :=
  ∀ x ∈ w.placed, w.isProvoking x → w.sees m (w.creature x).position → 0 < (w.creature x).health

instance : Decidable (w.NoneDead m) := inferInstanceAs (Decidable (∀ x ∈ _, _))

/-- A look around finds the living opponents in sight. -/
theorem mem_rescan_iff_due (hv : v.Sound) (hm : v.Live m)
    (hL : ∀ x ∈ L, x ∈ v.placed ∧ v.isProvoking x) (hdead : v.NoneDead m) :
    x ∈ v.rescan o m L ↔ v.Due m x := by
  have hnodup : (v.getSpectators (v.creature m).position).Nodup := hv.nodup.filter _
  rw [mem_rescan, hm.due_iff, hm.isOpponent, hnodup.mem_erase_iff, getSpectators, List.mem_filter]
  constructor
  · rintro (⟨hx, hhealth, hsees⟩ | ⟨⟨-, hx, -⟩, hsees, hprovoking⟩)
    · exact ⟨(hL x hx).1, (hL x hx).2, hhealth, hsees⟩
    · exact ⟨hx, hprovoking, hdead x hx hprovoking hsees, hsees⟩
  · rintro ⟨hx, hprovoking, hhealth, hsees⟩
    refine .inr ⟨⟨?_, hx, (hv.inRange_of_sees hm.placed hx hsees).1⟩, hsees, hprovoking⟩
    rintro rfl
    rw [hm.not_isProvoking] at hprovoking
    cases hprovoking

omit [DecidableEq ι] in
theorem Sound.congr (h : w.Sound) (hcreature : w'.creature = w.creature)
    (hplaced : w'.placed = w.placed) : w'.Sound := by
  cases w
  cases w'
  subst hcreature hplaced
  exact ⟨h.1, h.2, h.3, h.4, h.5⟩

omit [DecidableEq ι] in
theorem Live.congr (h : w.Live m) (hcreature : w'.creature = w.creature)
    (hplaced : w'.placed = w.placed) : w'.Live m := by
  cases w
  cases w'
  subst hcreature hplaced
  exact ⟨h.1, h.2, h.3, h.4⟩

theorem Due.congr (h : w.Due m x) (hcreature : w'.creature = w.creature)
    (hplaced : w'.placed = w.placed) : w'.Due m x := by
  cases w
  cases w'
  subst hcreature hplaced
  exact ⟨h.1, h.2, h.3, h.4⟩

/-- The lists track the view of another world with the same creatures. -/
theorem tracked_of_congr (hcreature : w'.creature = w.creature) (hplaced : w'.placed = w.placed)
    (h : ∀ m, w.Live m → (w'.targetList m).Nodup ∧ ∀ x, x ∈ w'.targetList m ↔ w.Due m x) :
    w'.Tracked := by
  intro m hm
  obtain ⟨hnodup, hmem⟩ := h m (hm.congr hcreature.symm hplaced.symm)
  refine ⟨hnodup, fun x => ?_⟩
  rw [hmem]
  exact ⟨fun h => h.congr hcreature hplaced, fun h => h.congr hcreature.symm hplaced.symm⟩

omit [DecidableEq ι] in
/-- What keeps the kinds and gives nobody a master keeps the world sound. -/
theorem Sound.of_fields (h : w.Sound) (hplaced : w'.placed.Sublist w.placed)
    (hfloor : ∀ x ∈ w'.placed, (w'.creature x).position.z.toNat < MAP_MAX_LAYERS)
    (hkind : ∀ x ∈ w'.placed, (w'.creature x).kind = (w.creature x).kind)
    (hremoved : ∀ x ∈ w'.placed, (w'.creature x).isRemoved = (w.creature x).isRemoved)
    (hmaster : ∀ x ∈ w'.placed, (w'.creature x).master = (w.creature x).master ∨
      (w'.creature x).master = none)
    (hgone : ∀ x, x ∈ w.placed ∨ (w.creature x).isRemoved →
      x ∈ w'.placed ∨ (w'.creature x).isRemoved) : w'.Sound := by
  refine ⟨hplaced.nodup h.nodup, hfloor, fun x hx => ?_, fun x hx hne => ?_,
    fun x hx master hxm => ?_⟩
  · rw [hremoved x hx]
    exact h.isRemoved x (hplaced.subset hx)
  · rw [hkind x hx]
    rcases hmaster x hx with hmaster | hmaster
    · exact h.monster x (hplaced.subset hx) (hmaster ▸ hne)
    · exact absurd hmaster hne
  · rcases hmaster x hx with hmaster | hmaster
    · rw [hmaster] at hxm
      exact hgone master (h.master x (hplaced.subset hx) master hxm)
    · rw [hmaster] at hxm
      cases hxm

section Modify
variable {f : Creature ι → Creature ι}

/-- A field that is not modified. -/
theorem modify_field {β : Type*} (g : Creature ι → β) (hg : ∀ a, g (f a) = g a) :
    g ((w.modify c f).creature x) = g (w.creature x) := by
  by_cases hx : x = c
  · rw [hx, modify_creature_self, hg]
  · rw [modify_creature_of_ne hx]

theorem isProvoking_modify (hkind : ∀ a, (f a).kind = a.kind)
    (hmaster : ∀ a, (f a).master = a.master) :
    (w.modify c f).isProvoking x = w.isProvoking x :=
  isProvoking_congr (modify_field _ hkind) (modify_field _ hmaster)
    fun _ _ => modify_field _ hkind

theorem Sound.modify (h : w.Sound) (hkind : ∀ a, (f a).kind = a.kind)
    (hmaster : ∀ a, (f a).master = a.master) (hremoved : ∀ a, (f a).isRemoved = a.isRemoved)
    (hz : (f (w.creature c)).position.z.toNat < MAP_MAX_LAYERS) : (w.modify c f).Sound := by
  refine h.of_fields (List.Sublist.refl _) (fun x hx => ?_) (fun x _ => modify_field _ hkind)
    (fun x _ => modify_field _ hremoved) (fun x _ => .inl (modify_field _ hmaster)) fun x hx => ?_
  · by_cases hxc : x = c
    · rw [hxc, modify_creature_self]
      exact hz
    · rw [modify_creature_of_ne hxc]
      exact h.floor x hx
  · rw [modify_field _ hremoved]
    exact hx

end Modify

/-! ## Placing -/

section Place
variable {data : Creature ι} {pos : Position}

theorem put_creature_self : (w.put c data pos).creature c =
    { data with position := pos, isRemoved := false } := Function.update_self c _ _

theorem put_creature_of_ne (hx : x ≠ c) : (w.put c data pos).creature x = w.creature x :=
  Function.update_of_ne hx _ _

theorem mem_put : x ∈ (w.put c data pos).placed ↔ x ∈ w.placed ∨ x = c := by
  simp [put]

omit [DecidableEq ι] in
/-- No creature on the map has a master who was not placed yet. -/
theorem Sound.ne_of_mem_master (h : w.Sound) (hc : c ∉ w.placed)
    (hremoved : (w.creature c).isRemoved = false) (hx : x ∈ w.placed) :
    ∀ master ∈ (w.creature x).master, master ≠ c := by
  rintro master hmaster rfl
  rcases h.master x hx master hmaster with hplaced | hgone
  · exact hc hplaced
  · rw [hremoved] at hgone
    cases hgone

theorem Sound.put (h : w.Sound) (hc : c ∉ w.placed) (hz : pos.z.toNat < MAP_MAX_LAYERS)
    (hdata : ∀ master ∈ data.master, data.kind = .monster ∧ master ∈ w.placed) :
    (w.put c data pos).Sound := by
  have hold : ∀ {x}, x ∈ w.placed → (w.put c data pos).creature x = w.creature x :=
    fun hx => put_creature_of_ne fun h => hc (h ▸ hx)
  have hall : ∀ {p : ι → Prop}, p c → (∀ x ∈ w.placed, p x) → ∀ x ∈ (w.put c data pos).placed,
      p x := by
    intro p hpc hp x hx
    rcases List.mem_append.mp hx with hx | hx
    · exact hp x hx
    · rwa [List.mem_singleton.mp hx]
  refine ⟨?_, hall ?_ fun x hx => ?_, hall ?_ fun x hx => ?_, hall ?_ fun x hx => ?_,
    hall ?_ fun x hx => ?_⟩
  · refine List.nodup_append.mpr ⟨h.nodup, List.nodup_singleton c, ?_⟩
    rintro a ha b hb rfl
    exact hc (List.mem_singleton.mp hb ▸ ha)
  · rw [put_creature_self]
    exact hz
  · rw [hold hx]
    exact h.floor x hx
  · rw [put_creature_self]
  · rw [hold hx]
    exact h.isRemoved x hx
  · rw [put_creature_self]
    intro hmaster
    obtain ⟨master, hmaster⟩ := Option.ne_none_iff_exists'.mp hmaster
    exact (hdata master hmaster).1
  · rw [hold hx]
    exact h.monster x hx
  · rw [put_creature_self]
    exact fun master hmaster => .inl (List.mem_append_left _ (hdata master hmaster).2)
  · rw [hold hx]
    intro master hmaster
    rcases h.master x hx master hmaster with hplaced | hremoved
    · exact .inl (List.mem_append_left _ hplaced)
    · by_cases hne : master = c
      · exact .inl (List.mem_append_right _ (List.mem_singleton.mpr hne))
      · refine .inr ?_
        rwa [put_creature_of_ne hne]

/-- A creature that appears is seen by everybody who is told of it, and lives. -/
def AppearsWell (w : World ι) (c : ι) (data : Creature ι) (pos : Position) : Prop :=
  (∀ m, (w.put c data pos).Live m → m ≠ c → (w.put c data pos).isProvoking c →
    inRange pos (w.creature m).position → w.sees m pos ∧ 0 < data.health) ∧
  ((w.put c data pos).Live c → (w.put c data pos).NoneDead c)

theorem Sound.placeCreature (h : w.Sound) (htracked : w.Tracked) (hc : c ∉ w.placed)
    (hremoved : (w.creature c).isRemoved = false) (hz : pos.z.toNat < MAP_MAX_LAYERS)
    (hdata : ∀ master ∈ data.master, data.kind = .monster ∧ master ∈ w.placed)
    (hok : w.AppearsWell c data pos) :
    (w.placeCreature o c data pos).Sound ∧ (w.placeCreature o c data pos).Tracked := by
  have hput := h.put hc hz hdata
  have htold : Told (w.put c data pos) (w.placeCreature o c data pos) _ _ :=
    told_placeCreature h.nodup hc
  refine ⟨hput.congr htold.creature htold.placed,
    tracked_of_congr htold.creature htold.placed fun m hm => ?_⟩
  have hspectator : ∀ {x}, x ∈ o.order ((w.put c data pos).getSpectators pos) ↔
      x ∈ (w.put c data pos).placed ∧ inRange pos ((w.put c data pos).creature x).position := by
    intro x
    rw [(o.perm _).mem_iff, getSpectators, List.mem_filter]
  have hself : ((w.put c data pos).creature c).position = pos := by rw [put_creature_self]
  by_cases hmc : m = c
  · subst hmc
    have hm' : m ∈ o.order ((w.put m data pos).getSpectators pos) := by
      rw [hspectator, hself]
      exact ⟨hm.placed, (inRange_of_canSee (canSee_self pos) hz hz).1⟩
    rw [htold.of_mem hm', appeared, if_neg (not_not.mpr hm.monster), if_pos rfl]
    have hlist : (w.put m data pos).targetList m = [] := Function.update_self m _ _
    rw [hlist]
    exact ⟨nodup_rescan List.nodup_nil,
      fun x => mem_rescan_iff_due hput hm (fun x hx => by cases hx) (hok.2 hm)⟩
  · have hcreature : (w.put c data pos).creature m = w.creature m := put_creature_of_ne hmc
    have hm' : w.Live m := by
      refine ⟨(mem_put.mp hm.placed).resolve_right hmc, ?_, ?_, ?_⟩
      · rw [← hcreature]
        exact hm.monster
      · rw [← hcreature]
        exact hm.master
      · rw [← hcreature]
        exact hm.health
    have hlist : (w.put c data pos).targetList m = w.targetList m := Function.update_of_ne hmc _ _
    have hprovoking : ∀ {x}, x ∈ w.placed → (w.put c data pos).isProvoking x = w.isProvoking x := by
      intro x hx
      have hne : x ≠ c := fun h => hc (h ▸ hx)
      have hxc : (w.put c data pos).creature x = w.creature x := put_creature_of_ne hne
      refine isProvoking_congr (by rw [hxc]) (by rw [hxc]) fun master hmaster => ?_
      rw [put_creature_of_ne (h.ne_of_mem_master hc hremoved hx master hmaster)]
    have hsees : ∀ pos', (w.put c data pos).sees m pos' = w.sees m pos' := by
      intro pos'
      rw [sees, hcreature, sees]
    have hdue : ∀ {x}, x ≠ c → ((w.put c data pos).Due m x ↔ w.Due m x) := by
      intro x hx
      rw [hm.due_iff, hm'.due_iff, mem_put, put_creature_of_ne hx, hsees]
      constructor
      · rintro ⟨hplaced | hplaced, hprov, hrest⟩
        · exact ⟨hplaced, hprovoking hplaced ▸ hprov, hrest⟩
        · exact absurd hplaced hx
      · rintro ⟨hplaced, hprov, hrest⟩
        exact ⟨.inl hplaced, (hprovoking hplaced).symm ▸ hprov, hrest⟩
    have hnot : c ∉ w.targetList m := fun hc' => hc (((htracked m hm').mem_iff c).mp hc').placed
    by_cases hs : m ∈ o.order ((w.put c data pos).getSpectators pos)
    · rw [htold.of_mem hs, appeared, if_neg (not_not.mpr hm.monster), if_neg (Ne.symm hmc), hlist]
      refine ⟨nodup_found (htracked m hm').nodup, fun x => ?_⟩
      rw [mem_found, hm.isOpponent]
      by_cases hx : x = c
      · subst hx
        rw [hm.due_iff, hself, hsees, put_creature_self]
        constructor
        · rintro (hx | ⟨-, hprov⟩)
          · exact absurd hx hnot
          · have hin := (hspectator.mp hs).2
            rw [hcreature] at hin
            obtain ⟨hsee, hhealth⟩ := hok.1 m hm hmc hprov hin
            exact ⟨mem_put.mpr (.inr rfl), hprov, hhealth, hsee⟩
        · rintro ⟨-, hprov, -⟩
          exact .inr ⟨rfl, hprov⟩
      · rw [hdue hx, (htracked m hm').mem_iff]
        simp [hx]
    · rw [htold.of_notMem hs, hlist]
      refine ⟨(htracked m hm').nodup, fun x => ?_⟩
      by_cases hx : x = c
      · subst hx
        refine iff_of_false hnot fun hd => hs ?_
        have hin := (hput.inRange_of_sees hm.placed hd.placed hd.sees).2
        rw [hself] at hin
        exact hspectator.mpr ⟨hm.placed, hin⟩
      · rw [hdue hx, (htracked m hm').mem_iff]

end Place

/-! ## Moving -/

section Move
variable {newPos : Position}

/-- The world in which the spectators of a move are told of it. -/
def shift (w : World ι) (c : ι) (newPos : Position) : World ι :=
  w.modify c fun a => { a with position := newPos }

theorem Sound.shift (h : w.Sound) (hz : newPos.z.toNat < MAP_MAX_LAYERS) :
    (w.shift c newPos).Sound := h.modify (fun _ => rfl) (fun _ => rfl) (fun _ => rfl) hz

theorem live_shift : (w.shift c newPos).Live m ↔ w.Live m := by
  have hkind : ((w.shift c newPos).creature m).kind = (w.creature m).kind :=
    modify_field _ fun _ => rfl
  have hmaster : ((w.shift c newPos).creature m).master = (w.creature m).master :=
    modify_field _ fun _ => rfl
  have hhealth : ((w.shift c newPos).creature m).health = (w.creature m).health :=
    modify_field _ fun _ => rfl
  constructor
  · rintro ⟨hplaced, hm, hm', hlive⟩
    exact ⟨hplaced, hkind ▸ hm, hmaster ▸ hm', hhealth ▸ hlive⟩
  · rintro ⟨hplaced, hm, hm', hlive⟩
    exact ⟨hplaced, hkind.trans hm, hmaster.trans hm', hhealth.symm ▸ hlive⟩

theorem isProvoking_shift : (w.shift c newPos).isProvoking x = w.isProvoking x :=
  isProvoking_modify (fun _ => rfl) fun _ => rfl

/-- What a monster makes of its list when another creature moves. -/
theorem Sound.moveCreature_targetList (h : w.Sound) (hc : c ∈ w.placed)
    (hz : newPos.z.toNat < MAP_MAX_LAYERS) (hm : w.Live m) (hmc : m ≠ c) :
    (w.moveCreature o c newPos).targetList m =
      if w.sees m newPos && !w.sees m (w.creature c).position then
        (w.shift c newPos).found m c true (w.targetList m)
      else if !w.sees m newPos && w.sees m (w.creature c).position then
        (w.shift c newPos).left m c (w.targetList m)
      else w.targetList m := by
  have htold : Told (w.shift c newPos) (w.moveCreature o c newPos) _ _ :=
    told_moveCreature h.nodup
  have hcreature : (w.shift c newPos).creature m = w.creature m := modify_creature_of_ne hmc
  have hsees : ∀ pos, (w.shift c newPos).sees m pos = w.sees m pos := by
    intro pos
    rw [sees, hcreature, sees]
  by_cases hs : m ∈ o.order (w.watchers (w.creature c).position newPos)
  · refine (htold.of_mem hs).trans ?_
    change (w.shift c newPos).moved o c newPos (w.creature c).position m (w.targetList m) = _
    rw [moved, hcreature, if_neg (not_not.mpr hm.monster), if_neg (Ne.symm hmc), hsees, hsees]
  · have hunseen : ∀ {pos : Position}, pos.z.toNat < MAP_MAX_LAYERS →
        (inRange pos (w.creature m).position → m ∈ w.watchers (w.creature c).position newPos) →
        w.sees m pos = false := by
      intro pos hpos hin
      by_contra hsees
      have hnear := (inRange_of_canSee (Bool.eq_true_of_not_eq_false hsees)
        (h.floor m hm.placed) hpos).2
      exact hs ((o.perm _).mem_iff.mpr (hin hnear))
    have hnew : w.sees m newPos = false := hunseen hz fun hin =>
      List.mem_filter.mpr ⟨hm.placed, by rw [hin, Bool.or_true]⟩
    have hold : w.sees m (w.creature c).position = false := hunseen (h.floor c hc) fun hin =>
      List.mem_filter.mpr ⟨hm.placed, by rw [hin, Bool.true_or]⟩
    rw [hnew, hold]
    exact htold.of_notMem hs

/-- The creature is in the list after it moved. -/
def Follows (w : World ι) (m c : ι) (newPos : Position) : Prop :=
  if w.sees m newPos && !w.sees m (w.creature c).position then
    c ∈ w.targetList m ∨ w.isProvoking c
  else if !w.sees m newPos && w.sees m (w.creature c).position then
    c ∈ w.targetList m ∧ ¬ w.isProvoking c
  else c ∈ w.targetList m

theorem Sound.mem_moveCreature (h : w.Sound) (hc : c ∈ w.placed)
    (hz : newPos.z.toNat < MAP_MAX_LAYERS) (hm : w.Live m) (hmc : m ≠ c)
    (hL : (w.targetList m).Nodup) :
    ((w.moveCreature o c newPos).targetList m).Nodup ∧
      (∀ x ≠ c, x ∈ (w.moveCreature o c newPos).targetList m ↔ x ∈ w.targetList m) ∧
      (c ∈ (w.moveCreature o c newPos).targetList m ↔ w.Follows m c newPos) := by
  have hopponent : (w.shift c newPos).isOpponent m c = w.isProvoking c := by
    rw [(live_shift.mpr hm).isOpponent, isProvoking_shift]
  rw [h.moveCreature_targetList hc hz hm hmc, Follows]
  split
  · refine ⟨nodup_found hL, fun x hx => ?_, ?_⟩
    · rw [mem_found]
      exact or_iff_left fun h => hx h.1
    · rw [mem_found, hopponent, and_iff_right rfl]
  · split
    · refine ⟨nodup_left hL, fun x hx => ?_, ?_⟩
      · rw [mem_left hL]
        exact and_iff_left fun h => hx h.1
      · rw [mem_left hL, hopponent, and_iff_right rfl]
    · exact ⟨hL, fun _ _ => Iff.rfl, Iff.rfl⟩

theorem Live.due_shift_of_ne (hm : w.Live m) (hmc : m ≠ c) (hx : x ≠ c) :
    (w.shift c newPos).Due m x ↔ w.Due m x := by
  have hmonster : (w.shift c newPos).creature m = w.creature m := modify_creature_of_ne hmc
  have hcreature : (w.shift c newPos).creature x = w.creature x := modify_creature_of_ne hx
  rw [(live_shift.mpr hm).due_iff, hm.due_iff, isProvoking_shift, hcreature, sees, hmonster, sees]
  rfl

theorem Live.due_shift_self (hm : w.Live m) (hc : c ∈ w.placed) (hmc : m ≠ c) :
    (w.shift c newPos).Due m c ↔
      w.isProvoking c ∧ 0 < (w.creature c).health ∧ w.sees m newPos := by
  have hmonster : (w.shift c newPos).creature m = w.creature m := modify_creature_of_ne hmc
  have hcreature : (w.shift c newPos).creature c = { w.creature c with position := newPos } :=
    modify_creature_self
  rw [(live_shift.mpr hm).due_iff, isProvoking_shift, hcreature, sees, hmonster, sees]
  exact and_iff_right hc

theorem Sound.tracked_moveCreature (h : w.Sound) (hc : c ∈ w.placed)
    (hz : newPos.z.toNat < MAP_MAX_LAYERS)
    (hothers : ∀ m, w.Live m → m ≠ c → w.TracksBut c m ∧
      (w.Follows m c newPos ↔
        w.isProvoking c ∧ 0 < (w.creature c).health ∧ w.sees m newPos))
    (hself : w.Live c → w.Tracks c ∧ (w.shift c newPos).NoneDead c) :
    (w.moveCreature o c newPos).Sound ∧ (w.moveCreature o c newPos).Tracked := by
  have htold : Told (w.shift c newPos) (w.moveCreature o c newPos) _ _ :=
    told_moveCreature h.nodup
  refine ⟨(h.shift hz).congr htold.creature htold.placed,
    tracked_of_congr (w := w.shift c newPos) htold.creature htold.placed fun m hm => ?_⟩
  have hm' := live_shift.mp hm
  by_cases hmc : m = c
  · subst hmc
    obtain ⟨htracks, hdead⟩ := hself hm'
    have hfloor := h.floor m hc
    have hnear := (inRange_of_canSee (canSee_self _) hfloor hfloor).1
    have hs : m ∈ o.order (w.watchers (w.creature m).position newPos) :=
      (o.perm _).mem_iff.mpr (List.mem_filter.mpr ⟨hc, by rw [hnear, Bool.true_or]⟩)
    have hlist : (w.moveCreature o m newPos).targetList m =
        (w.shift m newPos).rescan o m (w.targetList m) := by
      refine (htold.of_mem hs).trans ?_
      exact (if_neg (not_not.mpr hm.monster)).trans (if_pos rfl)
    rw [hlist]
    refine ⟨nodup_rescan htracks.nodup, fun x => ?_⟩
    refine mem_rescan_iff_due (h.shift hz) hm (fun x hx => ?_) hdead
    have hdue := hm'.due_iff.mp ((htracks.mem_iff x).mp hx)
    exact ⟨hdue.1, isProvoking_shift.trans hdue.2.1⟩
  · obtain ⟨hbut, hfollows⟩ := hothers m hm' hmc
    obtain ⟨hnodup, hmem, hcmem⟩ := h.mem_moveCreature (o := o) hc hz hm' hmc hbut.nodup
    refine ⟨hnodup, fun x => ?_⟩
    by_cases hx : x = c
    · rw [hx, hcmem, hm'.due_shift_self hc hmc, hfollows]
    · rw [hmem x hx, hm'.due_shift_of_ne hmc hx, hbut.mem_iff x hx]

/-- A creature lives when it comes into sight, and a monster that moves sees no dead. -/
def MovesWell (w : World ι) (c : ι) (newPos : Position) : Prop :=
  (∀ m, w.Live m → m ≠ c → w.isProvoking c → w.sees m newPos →
    ¬ w.sees m (w.creature c).position → 0 < (w.creature c).health) ∧
  (w.Live c → (w.shift c newPos).NoneDead c)

theorem Sound.moveCreature (h : w.Sound) (htracked : w.Tracked) (hc : c ∈ w.placed)
    (hz : newPos.z.toNat < MAP_MAX_LAYERS) (hok : w.MovesWell c newPos) :
    (w.moveCreature o c newPos).Sound ∧ (w.moveCreature o c newPos).Tracked := by
  refine h.tracked_moveCreature hc hz (fun m hm hmc => ⟨(htracked m hm).but, ?_⟩)
    fun hm => ⟨htracked c hm, hok.2 hm⟩
  have hmem : c ∈ w.targetList m ↔ w.isProvoking c ∧ 0 < (w.creature c).health ∧
      w.sees m (w.creature c).position := by
    rw [(htracked m hm).mem_iff, hm.due_iff, and_iff_right hc]
  have hlives := hok.1 m hm hmc
  rw [Follows, hmem]
  cases hnew : w.sees m newPos <;> cases hold : w.sees m (w.creature c).position
  · simp
  · simp +contextual
  · simp only [hnew, hold] at hlives
    simpa using hlives
  · simp

end Move

end OTServBR.Targets.World
