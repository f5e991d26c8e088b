import OTServBR.Tile.Description

/-! # Places in the stack

The place of a thing that the player sees is its index in the stack, as long as
this is below ten. So the places agree with every description that writes the
first ten things, and with no other.
-/

namespace OTServBR.Tile

variable {types : Items} {player : Viewer} {t : Tile} {thing : Thing} {before rest S : List Thing}
  {n : ℕ} {k : ℤ}

/-- A place below ten where the thing lies, or none if it is not among the first ten. -/
def Answers (S : List Thing) (thing : Thing) (k : ℤ) : Prop :=
  (∃ m < 10, k = (m : ℕ) ∧ S[m]? = some thing) ∨ (k = -1 ∧ thing ∉ S.take 10)

theorem answers_here (hn : before.length < 10) :
    Answers (before ++ thing :: rest) thing before.length :=
  .inl ⟨before.length, hn, rfl, by simp⟩

theorem answers_none (hS : thing ∉ S.take 10) : Answers S thing (-1) := .inr ⟨rfl, hS⟩

theorem answers_full (hn : 10 ≤ before.length) (hbefore : thing ∉ before) :
    Answers (before ++ rest) thing (-1) := by
  refine answers_none fun hmem => hbefore ?_
  rw [List.take_append_of_le_length hn] at hmem
  exact List.mem_of_mem_take hmem

theorem stackposCreature_answers {creature : ℕ} (hsee : player.canSeeCreature creature)
    {creatures : List ℕ} (hn : before.length < 10) (hbefore : .creature creature ∉ before)
    (hrest : .creature creature ∉ rest) :
    Answers (before ++ ((creatures.filter player.canSeeCreature).map .creature ++ rest))
      (.creature creature) (stackposCreature player creature creatures before.length) := by
  induction creatures generalizing before with
  | nil =>
    refine answers_none fun hmem => ?_
    have hmem := List.mem_of_mem_take hmem
    simp [hbefore, hrest] at hmem
  | cons c creatures ih =>
    rw [stackposCreature]
    split
    · next heq =>
      subst heq
      rw [List.filter_cons_of_pos hsee]
      exact answers_here hn
    · next hne =>
      have hnext : .creature creature ∉ before ++ [.creature c] := by
        simp [hbefore, Ne.symm hne]
      split
      · next hc =>
        rw [List.filter_cons_of_pos hc, List.map_cons, List.cons_append, List.append_cons]
        split
        · exact answers_full (by simpa using by omega) hnext
        · have hlength : (before ++ [Thing.creature c]).length < 10 := by simp; omega
          simpa using ih hlength hnext
      · next hc =>
        rw [List.filter_cons_of_neg hc]
        exact ih hn hbefore

theorem stackposTop_answers {i : TileItem} {next : ℕ → ℤ} {items : List TileItem} (hi : i ∈ items)
    (href : ∀ it ∈ items, it.ref = i.ref → it = i) (hn : before.length < 10)
    (hbefore : .item i ∉ before) :
    Answers (before ++ (items.map .item ++ rest)) (.item i)
      (stackposTop i.ref next items before.length) := by
  induction items generalizing before with
  | nil => cases hi
  | cons it items ih =>
    obtain ⟨hit, href⟩ := List.forall_mem_cons.mp href
    rw [stackposTop, List.map_cons, List.cons_append]
    split
    · next heq =>
      rw [hit heq]
      exact answers_here hn
    · next hne =>
      have hother : i ≠ it := fun heq => hne (heq ▸ rfl)
      have hnext : .item i ∉ before ++ [.item it] := by simp [hbefore, hother]
      rw [List.append_cons]
      split
      · exact answers_full (by simpa using by omega) hnext
      · have hlength : (before ++ [Thing.item it]).length < 10 := by simp; omega
        simpa using ih ((List.mem_cons.mp hi).resolve_left hother) href hlength hnext

theorem stackposDown_eq (ref : ℕ) (items : List TileItem) (hn : n < 10) :
    stackposDown ref items n = stackposTop ref (fun _ => -1) items n := by
  induction items generalizing n with
  | nil => rfl
  | cons it items ih =>
    rw [stackposDown, stackposTop]
    split
    · rfl
    · by_cases hlast : n + 1 = 10
      · rw [if_pos hlast.ge, if_pos hlast]
      · rw [if_neg (by omega), if_neg hlast, ih (by omega)]

theorem passCreatures_eq {next : ℕ → ℤ} (creatures : List ℕ) (hn : n < 10) :
    passCreatures player next creatures n =
      if n + (creatures.filter player.canSeeCreature).length < 10 then
        next (n + (creatures.filter player.canSeeCreature).length)
      else -1 := by
  induction creatures generalizing n with
  | nil => simp [passCreatures, hn]
  | cons c creatures ih =>
    rw [passCreatures]
    split
    · next hc =>
      rw [List.filter_cons_of_pos hc, List.length_cons]
      by_cases hlast : n + 1 ≥ 10
      · rw [if_pos hlast, if_neg (by omega)]
      · rw [if_neg hlast, ih (by omega), Nat.add_right_comm, Nat.add_assoc]
    · next hc =>
      rw [List.filter_cons_of_neg hc, ih hn]

/-! ## The places of the things on a tile -/

theorem clientIndex_ge {creature : ℕ} (creatures : List ℕ) :
    clientIndex player creature creatures n = -1 ∨
      n ≤ clientIndex player creature creatures n := by
  induction creatures generalizing n with
  | nil => exact .inl rfl
  | cons c creatures ih =>
    have hnext := @ih (n + 1)
    have hsame := @ih n
    rw [clientIndex]
    split_ifs <;> omega

theorem stackposCreature_eq {creature : ℕ} (creatures : List ℕ) (hn : n < 10) :
    stackposCreature player creature creatures n =
      if clientIndex player creature creatures n < 10 then
        clientIndex player creature creatures n
      else -1 := by
  induction creatures generalizing n with
  | nil => rfl
  | cons c creatures ih =>
    have hlow : clientIndex player creature creatures (n + 1) = -1 ∨ _ := clientIndex_ge creatures
    rw [stackposCreature, clientIndex]
    by_cases heq : c = creature
    · rw [if_pos heq, if_pos heq, if_pos (by omega)]
    · rw [if_neg heq, if_neg heq]
      split
      · by_cases hlast : n + 1 ≥ 10
        · rw [if_pos hlast]
          split <;> omega
        · rw [if_neg hlast, ih (by omega)]
      · exact ih hn

/-- The place is the index for the client, unless this is ten or more. -/
theorem getStackposOfCreature_eq (creature : ℕ) :
    t.getStackposOfCreature player creature =
      if t.getClientIndexOfCreature player creature < 10 then
        t.getClientIndexOfCreature player creature
      else -1 := by
  rw [getStackposOfCreature, getClientIndexOfCreature]
  by_cases hn : t.countGround + t.items.getTopItemCount ≥ 10
  · have hlow : clientIndex player creature t.creatures.reverse _ = -1 ∨ _ :=
      clientIndex_ge (n := t.countGround + t.items.getTopItemCount) t.creatures.reverse
    rw [if_pos hn]
    split <;> omega
  · rw [if_neg hn, stackposCreature_eq _ (by omega)]

/-- The player sees all items. -/
def Sees (player : Viewer) : Thing → Prop
  | .creature id => player.canSeeCreature id
  | .item _ => True

theorem sees_creature {id : ℕ} : Sees player (.creature id) ↔ player.canSeeCreature id := Iff.rfl

theorem sees_item {i : TileItem} : Sees player (.item i) ↔ True := Iff.rfl

theorem mem_stack : thing ∈ t.stack player ↔ thing ∈ t.things ∧ Sees player thing := by
  cases thing with
  | creature id => simp [stack, floor, seen, things, thingsBehind, sees_creature]
  | item i => simp [stack, floor, things, thingsBehind, sees_item]

section Places

variable (h : Indexed types True t)

include h

theorem getTopItemCount_eq : t.items.getTopItemCount = t.items.topItems.length :=
  h.splits.getTopItemCount_eq

theorem getStackposOfCreature_answers {id : ℕ} (hsee : player.canSeeCreature id) :
    Answers (t.stack player) (.creature id) (t.getStackposOfCreature player id) := by
  have hfloor : .creature id ∉ t.floor := by simp [floor]
  rw [getStackposOfCreature, getTopItemCount_eq h, ← length_floor, stack]
  split
  · next hn => exact answers_full hn hfloor
  · exact stackposCreature_answers hsee (by omega) hfloor (by simp)

omit h in
/-- The ground is the first thing. -/
theorem getStackposOfItem_ground {i : TileItem} (hi : i ∈ t.ground.toList) :
    Answers (t.stack player) (.item i) (t.getStackposOfItem types player i) := by
  obtain hground := Option.mem_toList.mp hi
  rw [getStackposOfItem, hground, Option.map_some, if_pos rfl, stack, floor, hground]
  exact .inl ⟨0, by decide, rfl, rfl⟩

theorem getStackposOfItem_top {i : TileItem} (hi : i ∈ t.items.topItems)
    (hground : i ∉ t.ground.toList) (hne : t.ground.map (·.ref) ≠ some i.ref) :
    Answers (t.stack player) (.item i) (t.getStackposOfItem types player i) := by
  have hcount : t.countGround = (t.ground.toList.map Thing.item).length := by
    rw [List.length_map, countGround_eq]
  have hunique : ∀ it ∈ t.items.topItems, it.ref = i.ref → it = i := fun it hit href =>
    h.eq_of_ref (h.mem_allItems.mpr (.inr (.inr hi))) (h.mem_allItems.mpr (.inr (.inr hit))) href
  have hle := countGround_le (t := t)
  rw [getStackposOfItem, if_neg hne, if_pos (h.top trivial i hi), stack, floor, List.append_assoc,
    hcount]
  exact stackposTop_answers hi hunique (by omega) (by simpa using hground)

theorem getStackposOfItem_down {i : TileItem} (hi : i ∈ t.items.downItems)
    (hground : i ∉ t.ground.toList) (hne : t.ground.map (·.ref) ≠ some i.ref) :
    Answers (t.stack player) (.item i) (t.getStackposOfItem types player i) := by
  have hclass := h.down trivial i hi
  have hunique : ∀ it ∈ t.items.downItems, it.ref = i.ref → it = i := fun it hit href =>
    h.eq_of_ref (h.mem_allItems.mpr (.inr (.inl hi))) (h.mem_allItems.mpr (.inr (.inl hit))) href
  have hfloor : .item i ∉ t.floor := by
    have htop : i ∉ t.items.topItems := fun hmem => by simp [h.top trivial i hmem] at hclass
    simpa [floor, htop] using hground
  have habove : .item i ∉ t.floor ++ (t.seen player).map .creature := by simp [hfloor]
  have hseen : (t.creatures.filter player.canSeeCreature).length = (t.seen player).length := by
    rw [seen, List.filter_reverse, List.length_reverse]
  have hlength : t.floor.length + (t.seen player).length =
      (t.floor ++ (t.seen player).map Thing.creature).length := by
    rw [List.length_append, List.length_map]
  rw [getStackposOfItem, if_neg hne, if_neg (by simp [hclass]), getTopItemCount_eq h,
    ← length_floor, stack]
  dsimp only
  split
  · next hn => exact answers_full hn hfloor
  · next hn =>
    rw [passCreatures_eq _ (by omega), hseen, ← List.append_assoc, hlength]
    split
    · next hroom =>
      rw [stackposDown_eq _ _ hroom]
      have hanswer : Answers (_ ++ (t.items.downItems.map .item ++ [])) _
          (stackposTop i.ref (fun _ => -1) t.items.downItems _) :=
        stackposTop_answers hi hunique hroom habove
      rwa [List.append_nil] at hanswer
    · next hfull => exact answers_full (Nat.le_of_not_lt hfull) habove

/-- The place of everything that the player sees is the one in the stack. -/
theorem getStackpos_answers (hmem : thing ∈ t.stack player) :
    Answers (t.stack player) thing (t.getStackpos types player thing) := by
  obtain ⟨hthing, hsee⟩ := mem_stack.mp hmem
  cases thing with
  | creature id => exact getStackposOfCreature_answers h hsee
  | item i =>
    by_cases hground : i ∈ t.ground.toList
    · exact getStackposOfItem_ground hground
    · have hi : i ∈ t.allItems := mem_things_item.mp hthing
      have hne : t.ground.map (·.ref) ≠ some i.ref := by
        intro heq
        obtain ⟨g, hg, href⟩ := Option.map_eq_some_iff.mp heq
        have hgmem : g ∈ t.allItems := h.mem_allItems.mpr (.inl (Option.mem_toList.mpr hg))
        have hsame : g = i := h.eq_of_ref hi hgmem href
        exact hground (Option.mem_toList.mpr (hsame ▸ hg))
      rcases h.mem_allItems.mp hi with hg | hdown | htop
      · exact absurd hg hground
      · exact getStackposOfItem_down h hdown hground hne
      · exact getStackposOfItem_top h htop hground hne

end Places

/-! ## Places and descriptions -/

/-- The place of what the player sees on the tile is its place in the
description, and what has no place is not described. -/
def PlacesAgree (types : Items) (player : Viewer) (position : Position) (t : Tile) : Prop :=
  ∀ thing,
    (thing ∈ t.things → Sees player thing → 0 ≤ t.getStackpos types player thing →
      (t.GetTileDescription player position)[(t.getStackpos types player thing).toNat]? =
        some thing) ∧
    (t.getStackpos types player thing = -1 → thing ∉ t.GetTileDescription player position)

variable {position : Position} (h : Indexed types True t)

include h

theorem nodup_stack : (t.stack player).Nodup := by
  have hthings : t.things.Nodup := h.nodup.of_map _
  have hsub : (t.ground.toList.map Thing.item ++ (t.items.topItems.map Thing.item ++
      ((t.creatures.filter player.canSeeCreature).map Thing.creature ++
        t.items.downItems.map Thing.item))).Sublist t.things :=
    (List.Sublist.refl _).append ((List.Sublist.refl _).append
      ((List.filter_sublist.map _).append (List.Sublist.refl _)))
  have hperm := (List.reverse_perm t.creatures).filter player.canSeeCreature
  refine (List.Perm.nodup_iff ?_).mpr (hthings.sublist hsub)
  rw [stack, floor, List.append_assoc]
  exact ((hperm.map _).append_right _).append_left _ |>.append_left _

theorem placesAgree_of_eq_take (hdesc : t.GetTileDescription player position =
    (t.stack player).take 10) : PlacesAgree types player position t := by
  unfold PlacesAgree
  rw [hdesc]
  intro thing
  constructor
  · intro hthing hsee hplace
    rcases getStackpos_answers h (mem_stack.mpr ⟨hthing, hsee⟩) with ⟨m, hm, heq, hget⟩ | ⟨heq, -⟩
    · rw [heq, Int.toNat_natCast, List.getElem?_take_of_lt hm, hget]
    · rw [heq] at hplace
      exact absurd hplace (by decide)
  · intro hnone hmem
    have hstack := List.mem_of_mem_take hmem
    rcases getStackpos_answers h hstack with ⟨m, hm, heq, hget⟩ | ⟨-, habsent⟩
    · rw [hnone] at heq
      omega
    · exact habsent hmem

/-- The tenth thing has the place nine, so that it has to be described there. -/
theorem PlacesAgree.tenth (hagree : PlacesAgree types player position t)
    (hget : (t.stack player)[9]? = some thing) :
    (t.GetTileDescription player position)[9]? = some thing := by
  have hmem := List.mem_of_getElem? hget
  obtain ⟨hthing, hsee⟩ := mem_stack.mp hmem
  rcases getStackpos_answers h hmem with ⟨m, hm, heq, hm'⟩ | ⟨-, habsent⟩
  · have hm9 : m = 9 :=
        (List.getElem?_inj (List.getElem?_eq_some_iff.mp hm').1 (nodup_stack h)).mp
        (hm'.trans hget.symm)
    have hplace := (hagree thing).1 hthing hsee (by omega)
    rwa [heq, Int.toNat_natCast, hm9] at hplace
  · refine absurd ?_ habsent
    exact List.mem_of_getElem? ((List.getElem?_take_of_lt (by decide)).trans hget)

omit h in
theorem GetTileDescription_own (hown : position = player.position) :
    t.GetTileDescription player position = t.floor.take 9 ++
      describeCreatures player true (describeDown t.items.downItems) (t.seen player) false
        (min 9 t.floor.length) := by
  have hle := countGround_le (t := t)
  have hground : (t.ground.toList.map Thing.item).length = t.countGround := by
    rw [List.length_map, countGround_eq]
  have hfirst : (t.ground.toList.map Thing.item).take 9 = _ :=
    List.take_of_length_le (by omega)
  rw [GetTileDescription_eq (decide_eq_true hown), describeTop_own (by omega), ← length_floor,
    describeCreatures_filter, ← seen, floor, List.take_append, hfirst, hground, List.append_assoc]

/-- With ten things on the floor the tenth of them is not described. -/
theorem PlacesAgree.length_floor_le (hagree : PlacesAgree types player position t)
    (hown : position = player.position) : t.floor.length ≤ 9 := by
  by_contra hlarge
  have hnine : (t.floor.take 9).length = 9 := List.length_take_of_le (by omega)
  obtain ⟨thing, hthing⟩ : ∃ thing, t.floor[9]? = some thing :=
    ⟨_, List.getElem?_eq_getElem (by omega)⟩
  have hmem := List.mem_of_getElem? hthing
  have hget : (t.stack player)[9]? = some thing := by
    rw [stack, List.getElem?_append_left (by omega), hthing]
  have htenth := hagree.tenth h hget
  rw [GetTileDescription_own hown, List.getElem?_append_right hnine.le, hnine,
    Nat.min_eq_left (by omega), Nat.sub_self] at htenth
  have hnodup : (t.stack player).Nodup := nodup_stack h
  rw [stack] at hnodup
  have hdisjoint := List.disjoint_of_nodup_append hnodup
  have hitem : ∃ i, thing = .item i := by
    rw [floor, ← List.map_append] at hmem
    obtain ⟨i, -, hi⟩ := List.mem_map.mp hmem
    exact ⟨i, hi.symm⟩
  obtain ⟨i, rfl⟩ := hitem
  -- the ninth thing of the floor is followed by a creature or a down item
  cases hseen : t.seen player with
  | nil =>
    rw [hseen, describeCreatures, describeDown_eq _ (by decide)] at htenth
    have hdown := List.mem_of_mem_take (List.mem_of_getElem? htenth)
    exact hdisjoint hmem (List.mem_append_right _ hdown)
  | cons c creatures =>
    have hcseen : c ∈ t.seen player := by
      rw [hseen]
      exact List.mem_cons_self
    have hc := canSeeCreature_of_mem_seen c hcseen
    rw [hseen, describeCreatures, hc] at htenth
    simp at htenth

/-- The tenth thing may be the player, but no other creature than the last one above. -/
theorem PlacesAgree.player_mem (hagree : PlacesAgree types player position t)
    (hown : position = player.position) (hfull : 10 ≤ t.floor.length + (t.seen player).length) :
    player.id ∈ (t.seen player).take (10 - t.floor.length) := by
  have hfloor := hagree.length_floor_le h hown
  by_contra habsent
  obtain ⟨c, hc⟩ : ∃ c, (t.seen player)[9 - t.floor.length]? = some c :=
    ⟨_, List.getElem?_eq_getElem (by omega)⟩
  have hget : (t.stack player)[9]? = some (.creature c) := by
    rw [stack, List.getElem?_append_right hfloor, List.getElem?_append_left (by
      rw [List.length_map]; omega), List.getElem?_map, hc]
    rfl
  have htenth := hagree.tenth h hget
  have hlast : ((t.seen player).take (9 - t.floor.length)).length = 9 - t.floor.length :=
    List.length_take_of_le (by omega)
  rw [GetTileDescription_own hown, List.take_of_length_le hfloor, Nat.min_eq_right hfloor,
    describeCreatures_replaced canSeeCreature_of_mem_seen hfloor hfull habsent,
    List.getElem?_append_right hfloor, List.getElem?_append_right (by simp)] at htenth
  rw [List.length_map, hlast, Nat.sub_self] at htenth
  obtain rfl : player.id = c := by simpa using htenth
  refine habsent (List.mem_of_getElem? ((List.getElem?_take_of_lt ?_).trans hc))
  omega

theorem roomForPlayer_of_placesAgree (hagree : PlacesAgree types player position t)
    (hown : position = player.position) : RoomForPlayer player t := by
  refine ⟨hagree.length_floor_le h hown, ?_⟩
  by_cases hfull : 10 ≤ t.floor.length + (t.seen player).length
  · exact .inr (hagree.player_mem h hown hfull)
  · exact .inl (by omega)

/-- Away from the player the places agree with the description; on the tile of
the player they do if it is among the first ten things anyway. -/
theorem placesAgree_iff : PlacesAgree types player position t ↔
    (position = player.position → RoomForPlayer player t) := by
  constructor
  · exact roomForPlayer_of_placesAgree h
  · exact fun hroom => placesAgree_of_eq_take h (GetTileDescription_eq_take hroom)

omit h

/-- The player 7 among others, all of them visible. -/
def visitor : Viewer := ⟨7, ⟨100, 100, 7⟩, fun _ => true⟩

/-- Grass, a teleport, the player and a sword. -/
def quiet : Tile where
  ground := some grass
  items := ⟨[sword 2, teleport 1], 1⟩
  creatures := [7]

theorem placesAgree_quiet : PlacesAgree templeTypes visitor ⟨100, 100, 7⟩ quiet :=
  (placesAgree_iff (by constructor <;> decide)).mpr fun _ => by
    refine ⟨by decide, .inl (by decide)⟩

/-- Grass and nine creatures that were there before the player. -/
def crowd : Tile where
  ground := some grass
  creatures := [7, 19, 18, 17, 16, 15, 14, 13, 12, 11]

/-- The player is written in place of creature 19, which keeps its place nine. -/
theorem not_placesAgree_crowd : ¬ PlacesAgree templeTypes visitor ⟨100, 100, 7⟩ crowd := by
  intro hagree
  have hplace := (hagree (.creature 19)).1 (by decide) rfl (by decide)
  exact absurd hplace (by decide)

end OTServBR.Tile
