import OTServBR.Tile.Index

/-! # Stack positions

A client gets the first ten things of a tile and is told of later changes by
their place in this stack. The description and the functions that compute a
place walk along the tile on their own. On the tile where the player stands the
description makes room for the player, which the places do not follow.
-/

namespace OTServBR

/-- A player with what it sees of the creatures. -/
structure Viewer where
  id : ℕ
  position : Position
  canSeeCreature : ℕ → Bool

namespace Tile

section Model

variable (types : Items) (player : Viewer) (own : Bool) (t : Tile)

/-! ## The description

Each loop goes on with the next one unless the function returns. -/

def describeDown : List TileItem → ℕ → List Thing
  | [], _ => []
  | it :: items, count =>
    .item it :: if count + 1 = 10 then [] else describeDown items (count + 1)

def describeCreatures (next : ℕ → List Thing) : List ℕ → Bool → ℕ → List Thing
  | [], _, count => next count
  | creature :: creatures, playerAdded, count =>
    if !player.canSeeCreature creature then
      describeCreatures next creatures playerAdded count
    else
      let creature := if own && count == 9 && !playerAdded then player.id else creature
      let playerAdded := playerAdded || creature == player.id
      .creature creature ::
        if count + 1 = 10 then [] else describeCreatures next creatures playerAdded (count + 1)

def describeTop (next : ℕ → List Thing) : List TileItem → ℕ → List Thing
  | [], count => next count
  | it :: items, count =>
    .item it ::
      if count + 1 = 9 && own then next (count + 1)
      else if count + 1 = 10 then []
      else describeTop next items (count + 1)

/-- The things that `ProtocolGame::GetTileDescription` writes of the tile at a position. -/
def GetTileDescription (position : Position) : List Thing :=
  let own := position = player.position
  let items := describeTop own
    (describeCreatures player own (describeDown t.items.downItems) t.creatures.reverse false)
    t.items.topItems
  match t.ground with
  | some ground => .item ground :: items 1
  | none => items 0

/-! ## The places -/

def countGround : ℕ := if t.ground.isSome then 1 else 0

/-- The loop of `getClientIndexOfCreature`. -/
def clientIndex (creature : ℕ) : List ℕ → ℕ → ℤ
  | [], _ => -1
  | c :: creatures, n =>
    if c = creature then n
    else if player.canSeeCreature c then clientIndex creature creatures (n + 1)
    else clientIndex creature creatures n

def getClientIndexOfCreature (creature : ℕ) : ℤ :=
  clientIndex player creature t.creatures.reverse (t.countGround + t.items.getTopItemCount)

/-- The loop of `getStackposOfCreature`. -/
def stackposCreature (creature : ℕ) : List ℕ → ℕ → ℤ
  | [], _ => -1
  | c :: creatures, n =>
    if c = creature then n
    else if player.canSeeCreature c then
      if n + 1 ≥ 10 then -1 else stackposCreature creature creatures (n + 1)
    else stackposCreature creature creatures n

def getStackposOfCreature (creature : ℕ) : ℤ :=
  let n := t.countGround + t.items.getTopItemCount
  if n ≥ 10 then -1 else stackposCreature player creature t.creatures.reverse n

/-- The loops of `getStackposOfItem`. -/
def stackposTop (ref : ℕ) (next : ℕ → ℤ) : List TileItem → ℕ → ℤ
  | [], n => next n
  | it :: items, n =>
    if it.ref = ref then n else if n + 1 = 10 then -1 else stackposTop ref next items (n + 1)

def passCreatures (next : ℕ → ℤ) : List ℕ → ℕ → ℤ
  | [], n => next n
  | creature :: creatures, n =>
    if player.canSeeCreature creature then
      if n + 1 ≥ 10 then -1 else passCreatures next creatures (n + 1)
    else passCreatures next creatures n

def stackposDown (ref : ℕ) : List TileItem → ℕ → ℤ
  | [], _ => -1
  | it :: items, n =>
    if it.ref = ref then n else if n + 1 ≥ 10 then -1 else stackposDown ref items (n + 1)

def getStackposOfItem (item : TileItem) : ℤ :=
  if (t.ground.map (·.ref)) = some item.ref then 0
  else
    let n := t.countGround
    if item.item.isAlwaysOnTop types then
      stackposTop item.ref (passCreatures player (fun _ => -1) t.creatures) t.items.topItems n
    else
      let n := n + t.items.getTopItemCount
      if n ≥ 10 then -1
      else passCreatures player (stackposDown item.ref t.items.downItems) t.creatures n

def getStackpos : Thing → ℤ
  | .creature id => t.getStackposOfCreature player id
  | .item i => t.getStackposOfItem types player i

end Model

/-! ## The stack -/

section Stack

variable (player : Viewer) (t : Tile)

def seen : List ℕ := t.creatures.reverse.filter player.canSeeCreature

/-- The ground and the top items. -/
def floor : List Thing := t.ground.toList.map .item ++ t.items.topItems.map .item

/-- The things that the player sees in the order in which they lie. -/
def stack : List Thing :=
  t.floor ++ ((t.seen player).map .creature ++ t.items.downItems.map .item)

end Stack

variable {types : Items} {player : Viewer} {own : Bool} {t : Tile} {thing : Thing} {n : ℕ}

theorem describeDown_eq (items : List TileItem) (hn : n < 10) :
    describeDown items n = (items.map Thing.item).take (10 - n) := by
  induction items generalizing n with
  | nil => simp [describeDown]
  | cons it items ih =>
    rw [describeDown, List.map_cons, show 10 - n = 10 - (n + 1) + 1 by omega, List.take_succ_cons]
    split
    · next h => rw [h, List.take_zero]
    · rw [ih (by omega)]

/-- The creatures that are left out do not count. -/
theorem describeCreatures_filter {next : ℕ → List Thing} {creatures : List ℕ} {added : Bool} :
    describeCreatures player own next creatures added n =
      describeCreatures player own next (creatures.filter player.canSeeCreature) added n := by
  induction creatures generalizing added n with
  | nil => rfl
  | cons c creatures ih =>
    cases hc : player.canSeeCreature c with
    | false => rw [List.filter_cons_of_neg (by simp [hc]), describeCreatures, hc, ← ih]; rfl
    | true =>
      rw [List.filter_cons_of_pos hc, describeCreatures, describeCreatures, hc]
      simp only [Bool.not_true, Bool.false_eq_true, if_false, ← ih]

theorem describeCreatures_kept {next : ℕ → List Thing} {creatures : List ℕ} {added : Bool}
    (hseen : ∀ c ∈ creatures, player.canSeeCreature c) (hn : n < 10)
    (hroom : own → added ∨ n + creatures.length ≤ 9 ∨ player.id ∈ creatures.take (10 - n)) :
    describeCreatures player own next creatures added n =
      if n + creatures.length < 10 then creatures.map .creature ++ next (n + creatures.length)
      else (creatures.map .creature).take (10 - n) := by
  induction creatures generalizing added n with
  | nil => simp [describeCreatures, hn]
  | cons c creatures ih =>
    obtain ⟨hc, hseen⟩ := List.forall_mem_cons.mp hseen
    have htake : (c :: creatures).take (10 - n) = c :: creatures.take (9 - n) := by
      rw [show 10 - n = 9 - n + 1 by omega, List.take_succ_cons]
    rw [htake, List.length_cons, List.mem_cons] at hroom
    -- the player takes no place but its own
    have hself : (if own && n == 9 && !added then player.id else c) = c := by
      split
      · next hlast =>
        simp only [Bool.and_eq_true, beq_iff_eq, Bool.not_eq_true'] at hlast
        obtain ⟨⟨hown, rfl⟩, hadded⟩ := hlast
        rcases hroom hown with h | h | h | h
        · simp [hadded] at h
        · omega
        · exact h
        · simp at h
      · rfl
    rw [describeCreatures, hc]
    simp only [Bool.not_true, Bool.false_eq_true, if_false, hself]
    by_cases hlast : n + 1 = 10
    · have hn9 : 10 - n = 1 := by omega
      rw [if_pos hlast, List.length_cons, if_neg (by omega), hn9, List.map_cons,
        List.take_succ_cons, List.take_zero]
    · have hrest : own → (added || c == player.id) ∨ n + 1 + creatures.length ≤ 9 ∨
          player.id ∈ creatures.take (10 - (n + 1)) := by
        intro hown
        rcases hroom hown with h | h | h | h
        · exact .inl (by simp [h])
        · exact .inr (.inl (by omega))
        · exact .inl (by simp [h])
        · rw [show 10 - (n + 1) = 9 - n by omega]
          exact .inr (.inr h)
      rw [if_neg hlast, ih hseen (by omega) hrest, List.length_cons, List.map_cons,
        show n + (creatures.length + 1) = n + 1 + creatures.length by omega]
      split
      · rfl
      · rw [show 10 - n = 10 - (n + 1) + 1 by omega, List.take_succ_cons]

/-- The player takes the place of another creature. -/
theorem describeCreatures_replaced {next : ℕ → List Thing} {creatures : List ℕ}
    (hseen : ∀ c ∈ creatures, player.canSeeCreature c) (hn : n ≤ 9)
    (hfull : 10 ≤ n + creatures.length) (habsent : player.id ∉ creatures.take (10 - n)) :
    describeCreatures player true next creatures false n =
      (creatures.take (9 - n)).map .creature ++ [.creature player.id] := by
  induction creatures generalizing n with
  | nil =>
    rw [List.length_nil] at hfull
    omega
  | cons c creatures ih =>
    obtain ⟨hc, hseen⟩ := List.forall_mem_cons.mp hseen
    rw [show 10 - n = 9 - n + 1 by omega, List.take_succ_cons, List.mem_cons, not_or] at habsent
    obtain ⟨hne, habsent⟩ := habsent
    rw [describeCreatures, hc]
    rcases Nat.lt_or_eq_of_le hn with hlt | rfl
    · have hother : (c == player.id) = false := by simpa using Ne.symm hne
      have h9 : (n == 9) = false := by simpa using Nat.ne_of_lt hlt
      simp only [h9, hother, Bool.not_true, Bool.false_eq_true, if_false, Bool.and_false,
        Bool.false_and, Bool.or_self]
      rw [if_neg (by omega), ih hseen (by omega) (by rw [List.length_cons] at hfull; omega)
        (by rwa [show 10 - (n + 1) = 9 - n by omega]), show 9 - n = 9 - (n + 1) + 1 by omega,
        List.take_succ_cons, List.map_cons, List.cons_append]
    · simp

theorem describeTop_away {next : ℕ → List Thing} {items : List TileItem} (hn : n < 10) :
    describeTop false next items n =
      if n + items.length < 10 then items.map .item ++ next (n + items.length)
      else (items.map .item).take (10 - n) := by
  induction items generalizing n with
  | nil => simp [describeTop, hn]
  | cons it items ih =>
    rw [describeTop, Bool.and_false, if_neg Bool.false_ne_true, List.length_cons, List.map_cons,
      show 10 - n = 9 - n + 1 by omega, List.take_succ_cons]
    by_cases hlast : n + 1 = 10
    · rw [if_pos hlast, if_neg (by omega), show 9 - n = 0 by omega, List.take_zero]
    · rw [if_neg hlast, ih (by omega), show n + 1 + items.length = n + (items.length + 1) by omega,
        show 10 - (n + 1) = 9 - n by omega]
      split <;> rfl

/-- On the tile of the player one place is left for it. -/
theorem describeTop_own {next : ℕ → List Thing} {items : List TileItem} (hn : n < 9) :
    describeTop true next items n =
      (items.map .item).take (9 - n) ++ next (min 9 (n + items.length)) := by
  induction items generalizing n with
  | nil => simp [describeTop, Nat.le_of_lt hn]
  | cons it items ih =>
    rw [describeTop, Bool.and_true, List.length_cons, List.map_cons,
      show 9 - n = 8 - n + 1 by omega, List.take_succ_cons]
    by_cases hlast : n + 1 = 9
    · rw [if_pos (by simpa using hlast), show 8 - n = 0 by omega, List.take_zero, hlast,
        Nat.min_eq_left (by omega)]
      rfl
    · rw [if_neg (by simpa using hlast), if_neg (by omega), ih (by omega),
        show 9 - (n + 1) = 8 - n by omega,
        show n + 1 + items.length = n + (items.length + 1) by omega]
      rfl

theorem countGround_eq : t.countGround = t.ground.toList.length := by
  rw [countGround]
  cases t.ground <;> rfl

theorem length_floor : t.floor.length = t.countGround + t.items.topItems.length := by
  rw [floor, List.length_append, List.length_map, List.length_map, countGround_eq]

theorem countGround_le : t.countGround ≤ 1 := by
  rw [countGround]
  split <;> decide

variable {position : Position}

theorem GetTileDescription_eq (hown : decide (position = player.position) = own) :
    t.GetTileDescription player position = t.ground.toList.map .item ++
      describeTop own (describeCreatures player own (describeDown t.items.downItems)
        t.creatures.reverse false) t.items.topItems t.countGround := by
  rw [GetTileDescription, countGround, ← hown]
  cases t.ground <;> rfl

theorem canSeeCreature_of_mem_seen : ∀ c ∈ t.seen player, player.canSeeCreature c :=
  fun _ hc => (List.mem_filter.mp hc).2

/-- The player is one of the first ten things, if it stands on the tile. -/
def RoomForPlayer (player : Viewer) (t : Tile) : Prop :=
  t.floor.length ≤ 9 ∧ (t.floor.length + (t.seen player).length ≤ 9 ∨
    player.id ∈ (t.seen player).take (10 - t.floor.length))

/-- The creatures and what lies below them. -/
theorem describe_above_floor (hn : n < 10)
    (hroom : own → n + (t.seen player).length ≤ 9 ∨
      player.id ∈ (t.seen player).take (10 - n)) :
    describeCreatures player own (describeDown t.items.downItems) t.creatures.reverse false n =
      ((t.seen player).map Thing.creature ++ t.items.downItems.map Thing.item).take (10 - n) := by
  rw [describeCreatures_filter, ← seen, describeCreatures_kept canSeeCreature_of_mem_seen hn
    fun hown => .inr (hroom hown), List.take_append, List.length_map]
  split
  · next h =>
    have hall : ((t.seen player).map Thing.creature).take (10 - n) = _ :=
      List.take_of_length_le (by rw [List.length_map]; omega)
    rw [describeDown_eq _ h, hall, Nat.sub_sub]
  · rw [show 10 - n - (t.seen player).length = 0 by omega, List.take_zero, List.append_nil]

theorem GetTileDescription_eq_take (hroom : position = player.position → RoomForPlayer player t) :
    t.GetTileDescription player position = (t.stack player).take 10 := by
  have hground := countGround_eq (t := t)
  have hground1 := countGround_le (t := t)
  have hfloor := length_floor (t := t)
  have hmap : (t.items.topItems.map Thing.item).length = t.items.topItems.length :=
    List.length_map _
  have hfirst : (t.ground.toList.map Thing.item).take 10 = _ :=
    List.take_of_length_le (by rw [List.length_map]; omega)
  rw [GetTileDescription_eq rfl, stack, floor, List.append_assoc, List.take_append, List.length_map,
    ← hground, hfirst, List.take_append, List.length_map, List.append_cancel_left_eq]
  by_cases hown : position = player.position
  · obtain ⟨hsmall, hroom⟩ := hroom hown
    rw [hfloor] at hsmall hroom
    have hall : ∀ n, t.items.topItems.length ≤ n →
        (t.items.topItems.map Thing.item).take n = t.items.topItems.map Thing.item :=
      fun n hn => List.take_of_length_le (by omega)
    rw [decide_eq_true hown, describeTop_own (by omega), Nat.min_eq_right hsmall,
      describe_above_floor (by omega) fun _ => hroom, Nat.sub_sub, hall _ (by omega),
      hall _ (by omega)]
  · rw [decide_eq_false hown, describeTop_away (by omega)]
    split
    · next h =>
      have hall : (t.items.topItems.map Thing.item).take (10 - t.countGround) = _ :=
        List.take_of_length_le (by omega)
      rw [describe_above_floor h (by simp), Nat.sub_sub, hall]
    · rw [show 10 - t.countGround - t.items.topItems.length = 0 by omega, List.take_zero,
        List.append_nil]

end Tile

end OTServBR
