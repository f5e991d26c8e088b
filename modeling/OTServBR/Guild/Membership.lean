import Mathlib.Data.List.Count
import OTServBR.Guild.Basic
import OTServBR.Lib.Run

/-! # Members of a guild

A guild and its members know of each other as long as nobody who is in a guild
is sent to one that has no rank of level 1.
-/

namespace OTServBR.Guilds

variable {π : Type*} [DecidableEq π] {g g' : Game π} {p q : π} {id id' : ℕ}

namespace Game

/-- A player is in the list of his guild once and in no other one, and has one of its ranks. -/
structure Consistent (g : Game π) : Prop where
  once : ∀ id p, (g.guild id).membersOnline.count p =
    if (g.players p).guild = some id then 1 else 0
  rank : ∀ p id, (g.players p).guild = some id →
    ∃ rank ∈ (g.guild id).ranks, (g.players p).guildRank = some rank
  rankless : ∀ p, (g.players p).guild = none → (g.players p).guildRank = none
  offline : ∀ p, (g.players p).online = false → (g.players p).guild = none

/-- A guild leaves the game exactly if it had members and all of them left it. -/
def Removes (g g' : Game π) : Prop :=
  ∀ id guild, g.guilds id = some guild →
    (g'.guilds id = none ↔
      guild.membersOnline ≠ [] ∧ ∀ p ∈ guild.membersOnline, (g'.players p).guild ≠ some id)

/-- A player changes, and the lists of the guilds follow. -/
structure Changes (g : Game π) (p : π) (g' : Game π) : Prop where
  players : ∀ q, q ≠ p → g'.players q = g.players q
  count : ∀ id q, q ≠ p →
    (g'.guild id).membersOnline.count q = (g.guild id).membersOnline.count q
  own : ∀ id, (g'.guild id).membersOnline.count p =
    if (g'.players p).guild = some id then 1 else 0
  ranks : ∀ id, (g'.guild id).membersOnline ≠ [] → (g.guild id).ranks ⊆ (g'.guild id).ranks
  removed : ∀ id guild, g.guilds id = some guild →
    (g'.guilds id = none ↔ guild.membersOnline ≠ [] ∧ (g'.guild id).membersOnline = [])

/-! ## Changes of one guild -/

@[simp] theorem guild_setPlayer {player : Player} : (g.setPlayer p player).guild = g.guild := rfl

omit [DecidableEq π] in
theorem guild_of_guilds {guild : Guild π} (h : g.guilds id = some guild) : g.guild id = guild := by
  rw [Game.guild, h]
  rfl

omit [DecidableEq π] in
theorem guilds_updateGuild_of_ne {guild : Option (Guild π)} (h : id' ≠ id) :
    (g.updateGuild id guild).guilds id' = g.guilds id' := Function.update_of_ne h ..

omit [DecidableEq π] in
theorem guild_updateGuild_of_ne {guild : Option (Guild π)} (h : id' ≠ id) :
    (g.updateGuild id guild).guild id' = g.guild id' := by
  rw [Game.guild, guilds_updateGuild_of_ne h, ← Game.guild]

omit [DecidableEq π] in
theorem guild_updateGuild {guild : Option (Guild π)} :
    (g.updateGuild id guild).guild id = guild.getD {} := by
  rw [Game.guild, updateGuild]
  dsimp only
  rw [Function.update_self]

omit [DecidableEq π] in
theorem guild_addMember : (g.addMember id p).guild id =
    { g.guild id with membersOnline := (g.guild id).membersOnline ++ [p] } := guild_updateGuild

theorem count_addMember : ((g.addMember id p).guild id').membersOnline.count q =
    (g.guild id').membersOnline.count q + if id' = id ∧ q = p then 1 else 0 := by
  by_cases hid : id' = id
  · subst hid
    rw [guild_addMember]
    dsimp only
    rw [List.count_append]
    by_cases hq : q = p
    · simp [hq]
    · simp [hq, List.count_eq_zero]
  · rw [addMember, guild_updateGuild_of_ne hid]
    simp [hid]

theorem members_removeMember : ((g.removeMember id p).guild id).membersOnline =
    (g.guild id).membersOnline.filter (· ≠ p) := by
  rw [removeMember, guild_updateGuild]
  dsimp only
  split
  · next hempty => exact (List.isEmpty_iff.mp hempty).symm
  · rfl

omit [DecidableEq π] in
theorem ranks_addMember : ((g.addMember id p).guild id').ranks = (g.guild id').ranks := by
  by_cases hid : id' = id
  · subst hid
    rw [guild_addMember]
  · rw [addMember, guild_updateGuild_of_ne hid]

theorem count_removeMember : ((g.removeMember id p).guild id').membersOnline.count q =
    if id' = id ∧ q = p then 0 else (g.guild id').membersOnline.count q := by
  by_cases hid : id' = id
  · subst hid
    rw [members_removeMember]
    by_cases hq : q = p
    · simp [hq, List.count_eq_zero]
    · rw [List.count_filter (by simpa using hq)]
      simp [hq]
  · rw [removeMember, guild_updateGuild_of_ne hid]
    simp [hid]

theorem count_removeFrom {old : Option ℕ} : ((g.removeFrom p old).guild id).membersOnline.count q =
    if old = some id ∧ q = p then 0 else (g.guild id).membersOnline.count q := by
  cases old with
  | none => simp [removeFrom]
  | some id' =>
    rw [removeFrom, count_removeMember]
    simp [eq_comm]

theorem guilds_removeFrom_of_ne {old : Option ℕ} (h : old ≠ some id) :
    (g.removeFrom p old).guilds id = g.guilds id := by
  cases old with
  | none => rfl
  | some id' => exact guilds_updateGuild_of_ne fun heq => h (heq ▸ rfl)

@[simp] theorem players_removeFrom {old : Option ℕ} :
    (g.removeFrom p old).players = g.players := by
  cases old <;> rfl

/-- The ranks of a guild that is left with members. -/
theorem ranks_removeFrom {old : Option ℕ}
    (h : ((g.removeFrom p old).guild id).membersOnline ≠ []) :
    ((g.removeFrom p old).guild id).ranks = (g.guild id).ranks := by
  by_cases hold : old = some id
  · subst hold
    rw [removeFrom, members_removeMember] at h
    rw [removeFrom, removeMember, guild_updateGuild]
    dsimp only
    rw [if_neg (by simpa using h)]
    rfl
  · rw [Game.guild, guilds_removeFrom_of_ne hold, ← Game.guild]

/-- A guild is taken out of the game with its last member. -/
theorem removed_removeFrom {old : Option ℕ} {guild : Guild π} (hguild : g.guilds id = some guild)
    (hmem : old = some id → p ∈ guild.membersOnline) :
    (g.removeFrom p old).guilds id = none ↔
      guild.membersOnline ≠ [] ∧ ((g.removeFrom p old).guild id).membersOnline = [] := by
  by_cases hold : old = some id
  · subst hold
    rw [removeFrom, members_removeMember, guild_of_guilds hguild, removeMember, updateGuild]
    dsimp only
    rw [Function.update_self, guild_of_guilds hguild]
    have hne : guild.membersOnline ≠ [] := List.ne_nil_of_mem (hmem rfl)
    rw [and_iff_right hne]
    split
    · next hempty => exact iff_of_true rfl (List.isEmpty_iff.mp hempty)
    · next hempty => exact iff_of_false nofun fun heq => hempty (List.isEmpty_iff.mpr heq)
  · rw [Game.guild, guilds_removeFrom_of_ne hold, hguild]
    exact iff_of_false nofun fun h => h.1 h.2

namespace Consistent

theorem mem_iff (h : g.Consistent) :
    p ∈ (g.guild id).membersOnline ↔ (g.players p).guild = some id := by
  rw [← List.count_pos_iff, h.once]
  split <;> simp [*]

omit [DecidableEq π] in
theorem online [DecidableEq π] (h : g.Consistent) (hp : (g.players p).guild = some id) :
    (g.players p).online = true := by
  refine eq_true_of_ne_false fun hoff => ?_
  rw [h.offline p hoff] at hp
  cases hp

/-- What changes with one player stays consistent. -/
theorem change (h : g.Consistent) (hc : Changes g p g')
    (hrank : ∀ id, (g'.players p).guild = some id →
      ∃ rank ∈ (g'.guild id).ranks, (g'.players p).guildRank = some rank)
    (hrankless : (g'.players p).guild = none → (g'.players p).guildRank = none)
    (hoffline : (g'.players p).online = false → (g'.players p).guild = none) :
    g'.Consistent := by
  refine ⟨fun id q => ?_, fun q id hq => ?_, fun q => ?_, fun q => ?_⟩
  · by_cases hqp : q = p
    · subst hqp
      exact hc.own id
    · rw [hc.count id q hqp, hc.players q hqp]
      exact h.once id q
  · by_cases hqp : q = p
    · subst hqp
      exact hrank id hq
    · rw [hc.players q hqp] at hq ⊢
      obtain ⟨rank, hmem, heq⟩ := h.rank q id hq
      refine ⟨rank, hc.ranks id (List.ne_nil_of_mem (a := q) ?_) hmem, heq⟩
      rw [← List.count_pos_iff, hc.count id q hqp, List.count_pos_iff]
      exact h.mem_iff.mpr hq
  · by_cases hqp : q = p
    · subst hqp
      exact hrankless
    · rw [hc.players q hqp]
      exact h.rankless q
  · by_cases hqp : q = p
    · subst hqp
      exact hoffline
    · rw [hc.players q hqp]
      exact h.offline q

/-- Between consistent states a guild is removed as soon as its last member leaves. -/
theorem removes (h : g.Consistent) (h' : g'.Consistent) (hc : Changes g p g') :
    g.Removes g' := by
  intro id guild hguild
  rw [hc.removed id guild hguild]
  refine and_congr_right fun hne => ?_
  have hmem : ∀ q, q ∈ (g.guild id).membersOnline ↔ (g.players q).guild = some id :=
    fun q => h.mem_iff
  rw [guild_of_guilds hguild] at hmem
  constructor
  · intro hempty q _ hq
    rw [← h'.mem_iff, hempty] at hq
    cases hq
  · intro hleft
    refine List.eq_nil_iff_forall_not_mem.mpr fun q hq => ?_
    -- The members of the guild left it all at once, so they were but one.
    have hone : ∀ r ∈ guild.membersOnline, r = p := by
      intro r hr
      by_contra hrp
      refine hleft r hr ?_
      rw [hc.players r hrp]
      exact (hmem r).mp hr
    obtain ⟨r, hr⟩ := List.exists_mem_of_ne_nil _ hne
    have hp : p ∈ guild.membersOnline := hone r hr ▸ hr
    rw [h'.mem_iff] at hq
    by_cases hqp : q = p
    · subst hqp
      exact hleft q hp hq
    · rw [hc.players q hqp, ← hmem] at hq
      exact hqp (hone q hq)

/-- A player without a guild in the game leaves the one he was in. -/
theorem changes_leave (h : g.Consistent) {player : Player} (hplayer : player.guild = none) :
    Changes g p ((g.setPlayer p player).removeFrom p (g.players p).guild) := by
  refine ⟨fun q hq => ?_, fun id q hq => ?_, fun id => ?_, fun id hne => ?_,
    fun id guild hguild => ?_⟩
  · rw [players_removeFrom]
    exact Function.update_of_ne hq ..
  · rw [count_removeFrom, if_neg fun hold => hq hold.2]
    rfl
  · have hplayer' : (g.setPlayer p player).players p = player := Function.update_self ..
    rw [count_removeFrom, guild_setPlayer, h.once, players_removeFrom, hplayer', hplayer,
      if_neg (nofun : (none : Option ℕ) ≠ some id)]
    split
    · rfl
    · next hold => rw [if_neg fun heq => hold ⟨heq, rfl⟩]
  · rw [ranks_removeFrom hne]
    exact List.Subset.refl _
  · refine removed_removeFrom hguild fun hold => ?_
    rw [← guild_of_guilds hguild, h.mem_iff]
    exact hold

/-- A player comes to a guild in the game from the one he was in. -/
theorem changes_join (h : g.Consistent) {player : Player} (hplayer : player.guild = some id)
    (hnew : (g.players p).guild ≠ some id) :
    Changes g p
      (((g.setPlayer p player).addMember id p).removeFrom p (g.players p).guild) := by
  refine ⟨fun q hq => ?_, fun id' q hq => ?_, fun id' => ?_, fun id' hne => ?_,
    fun id' guild hguild => ?_⟩
  · rw [players_removeFrom]
    exact Function.update_of_ne hq ..
  · rw [count_removeFrom, if_neg fun hold => hq hold.2, count_addMember, if_neg fun hid => hq hid.2]
    rfl
  · have hplayer' : ((g.setPlayer p player).addMember id p).players p = player :=
      Function.update_self ..
    rw [count_removeFrom, count_addMember, guild_setPlayer, h.once, players_removeFrom,
      hplayer', hplayer]
    by_cases hid : id' = id
    · subst hid
      simp [hnew]
    · have hid' : ¬ id = id' := fun heq => hid heq.symm
      by_cases hold : (g.players p).guild = some id'
      · simp [hold, hid']
      · simp [hold, hid, hid']
  · rw [ranks_removeFrom hne, ranks_addMember]
    exact List.Subset.refl _
  · by_cases hid : id' = id
    · subst hid
      have hguild' : ((((g.setPlayer p player).addMember id' p).removeFrom p
          (g.players p).guild).guilds id') = some
            { g.guild id' with membersOnline := (g.guild id').membersOnline ++ [p] } := by
        rw [guilds_removeFrom_of_ne hnew, addMember, updateGuild]
        exact Function.update_self ..
      rw [Game.guild, hguild']
      refine iff_of_false nofun fun hempty => ?_
      exact List.append_ne_nil_of_right_ne_nil _ (List.cons_ne_nil p []) hempty.2
    · have hguild' : ((g.setPlayer p player).addMember id p).guilds id' = some guild := by
        rw [addMember, guilds_updateGuild_of_ne hid]
        exact hguild
      refine removed_removeFrom hguild' fun hold => ?_
      rw [← guild_of_guilds hguild, h.mem_iff]
      exact hold

theorem removes_refl (h : g.Consistent) : g.Removes g := by
  intro id guild hguild
  rw [hguild]
  refine iff_of_false nofun ?_
  rintro ⟨hne, hleft⟩
  obtain ⟨p, hp⟩ := List.exists_mem_of_ne_nil _ hne
  have hguildOf := hp
  rw [← guild_of_guilds hguild, h.mem_iff] at hguildOf
  exact hleft p hp hguildOf

/-! ## Joining and leaving -/

theorem leave (h : g.Consistent) {player : Player} {old : Option ℕ}
    (hold : (g.players p).guild = old) (hplayer : player.guild = none)
    (hrank : player.guildRank = none) :
    ((g.setPlayer p player).removeFrom p old).Consistent ∧
    g.Removes ((g.setPlayer p player).removeFrom p old) := by
  subst hold
  have hc := h.changes_leave (p := p) hplayer
  have hp : ((g.setPlayer p player).removeFrom p (g.players p).guild).players p = player := by
    rw [players_removeFrom]
    exact Function.update_self ..
  have h' := h.change hc (fun id hid => by rw [hp, hplayer] at hid; cases hid)
    (fun _ => by rw [hp, hrank]) (fun _ => by rw [hp, hplayer])
  exact ⟨h', h.removes h' hc⟩

theorem join (h : g.Consistent) {player : Player} {rank : GuildRank} {old : Option ℕ}
    (hold : (g.players p).guild = old) (hnew : old ≠ some id)
    (hplayer : player.guild = some id) (honline : player.online = true)
    (hrank : player.guildRank = some rank) (hmem : rank ∈ (g.guild id).ranks) :
    (((g.setPlayer p player).addMember id p).removeFrom p old).Consistent ∧
    g.Removes (((g.setPlayer p player).addMember id p).removeFrom p old) := by
  subst hold
  have hc := h.changes_join hplayer hnew
  have hp : (((g.setPlayer p player).addMember id p).removeFrom p
      (g.players p).guild).players p = player := by
    rw [players_removeFrom]
    exact Function.update_self ..
  have hranks : ((((g.setPlayer p player).addMember id p).removeFrom p
      (g.players p).guild).guild id).ranks = (g.guild id).ranks := by
    rw [Game.guild, guilds_removeFrom_of_ne hnew, ← Game.guild, ranks_addMember]
    rfl
  have h' := h.change hc
    (fun id' hid => by
      rw [hp, hplayer, Option.some.injEq] at hid
      subst hid
      exact ⟨rank, hranks ▸ hmem, by rw [hp, hrank]⟩)
    (fun hnone => by rw [hp, hplayer] at hnone; cases hnone)
    (fun hoff => by rw [hp, honline] at hoff; cases hoff)
  exact ⟨h', h.removes h' hc⟩

theorem setGuild (h : g.Consistent) (honline : (g.players p).online = true)
    {newGuild : Option ℕ}
    (hrank : (g.players p).guild ≠ none → ∀ id, newGuild = some id →
      (g.players p).guild ≠ some id → (g.guild id).getRankByLevel 1 ≠ none) :
    (g.setGuild p newGuild).Consistent ∧ g.Removes (g.setGuild p newGuild) := by
  rw [Game.setGuild]
  dsimp only
  split
  · exact ⟨h, h.removes_refl⟩
  next hne =>
  cases newGuild with
  | none => exact h.leave rfl rfl rfl
  | some id =>
    dsimp only
    have hnew : (g.players p).guild ≠ some id := fun heq => hne heq.symm
    cases hlevel : (g.guild id).getRankByLevel 1 with
    | none =>
      have hfree : (g.players p).guild = none := by
        by_contra hguild
        exact hrank hguild id rfl hnew hlevel
      exact h.leave hfree rfl rfl
    | some rank =>
      exact h.join rfl hnew rfl honline rfl (List.mem_of_find?_eq_some hlevel)

/-- A player in a guild who is sent to one without a rank of level 1 stays in the list. -/
theorem not_consistent_setGuild (h : g.Consistent) {old : ℕ}
    (hold : (g.players p).guild = some old) (hne : (g.players p).guild ≠ some id)
    (hrank : (g.guild id).getRankByLevel 1 = none) :
    ¬ (g.setGuild p (some id)).Consistent := by
  intro h'
  rw [Game.setGuild] at h'
  dsimp only at h'
  rw [if_neg fun heq => hne heq.symm, hrank] at h'
  dsimp only at h'
  have hmem : p ∈ (g.guild old).membersOnline := h.mem_iff.mpr hold
  have hout := h'.mem_iff.mp hmem
  dsimp only [setPlayer] at hout
  rw [Function.update_self] at hout
  cases hout

end Consistent

/-! ## Logging in and out -/

/-- Guilds may come to the game without members and get more ranks. -/
structure Extends (g g' : Game π) : Prop where
  players : g'.players = g.players
  members : ∀ id, (g'.guild id).membersOnline = (g.guild id).membersOnline
  ranks : ∀ id, (g.guild id).ranks ⊆ (g'.guild id).ranks
  guilds : ∀ id, g.guilds id ≠ none → g'.guilds id ≠ none

namespace Extends

omit [DecidableEq π] in
theorem refl : Extends g g := ⟨rfl, fun _ => rfl, fun _ => List.Subset.refl _, fun _ h => h⟩

omit [DecidableEq π] in
theorem trans {g'' : Game π} (h : Extends g g') (h' : Extends g' g'') : Extends g g'' where
  players := h'.players.trans h.players
  members id := (h'.members id).trans (h.members id)
  ranks id _ hrank := h'.ranks id (h.ranks id hrank)
  guilds id hid := h'.guilds id (h.guilds id hid)

omit [DecidableEq π] in
theorem updateGuild {guild : Guild π} (hmembers : guild.membersOnline = (g.guild id).membersOnline)
    (hranks : (g.guild id).ranks ⊆ guild.ranks) : Extends g (g.updateGuild id (some guild)) := by
  refine ⟨rfl, fun id' => ?_, fun id' => ?_, fun id' hid' => ?_⟩
  · by_cases hid : id' = id
    · subst hid
      rw [guild_updateGuild]
      exact hmembers
    · rw [guild_updateGuild_of_ne hid]
  · by_cases hid : id' = id
    · subst hid
      rw [guild_updateGuild]
      exact hranks
    · rw [guild_updateGuild_of_ne hid]
      exact List.Subset.refl _
  · by_cases hid : id' = id
    · subst hid
      rw [Game.updateGuild]
      dsimp only
      rw [Function.update_self]
      exact nofun
    · rw [guilds_updateGuild_of_ne hid]
      exact hid'

omit [DecidableEq π] in
theorem loadGuild {m : Membership} : Extends g (g.loadGuild m) := by
  have hadd : ∀ (g : Game π) (rank : Option GuildRank), Extends g (g.addRank m.guildId rank) := by
    intro g rank
    cases rank with
    | none => exact refl
    | some rank => exact updateGuild rfl (List.subset_append_left _ _)
  rw [Game.loadGuild]
  cases hguild : g.guilds m.guildId with
  | some guild =>
    dsimp only
    split
    · exact refl
    · exact hadd _ _
  | none =>
    have hempty : g.guild m.guildId = {} := by
      rw [Game.guild, hguild]
      rfl
    have hload : Extends g (g.updateGuild m.guildId (some { ranks := m.guildRanks })) :=
      updateGuild (hempty ▸ rfl) (hempty ▸ List.nil_subset _)
    dsimp only
    split
    · exact hload
    · exact hload.trans (hadd _ _)

theorem changes (h : Extends g g') (hg : g.Consistent) : Changes g p g' where
  players q _ := by rw [h.players]
  count id q _ := by rw [h.members]
  own id := by rw [h.members, h.players, hg.once]
  ranks id _ := h.ranks id
  removed id guild hguild := by
    rw [h.members, guild_of_guilds hguild]
    exact iff_of_false (h.guilds id (by rw [hguild]; exact nofun)) fun hempty => hempty.1 hempty.2

theorem consistent (h : Extends g g') (hg : g.Consistent) : g'.Consistent := by
  refine ⟨fun id p => ?_, fun p id hp => ?_, ?_, ?_⟩
  · rw [h.members, h.players, hg.once]
  · rw [h.players] at hp ⊢
    obtain ⟨rank, hmem, heq⟩ := hg.rank p id hp
    exact ⟨rank, h.ranks id hmem, heq⟩
  · rw [h.players]
    exact hg.rankless
  · rw [h.players]
    exact hg.offline

omit [DecidableEq π] in
theorem removes {g'' : Game π} (h : Extends g g') (h' : g'.Removes g'') : g.Removes g'' := by
  intro id guild hguild
  obtain ⟨guild', hguild'⟩ := Option.ne_none_iff_exists'.mp
    (h.guilds id (by rw [hguild]; exact nofun))
  have hmembers := h.members id
  rw [guild_of_guilds hguild, guild_of_guilds hguild'] at hmembers
  rw [h' id guild' hguild', hmembers]

end Extends

namespace Consistent

theorem login (h : g.Consistent) {membership : Option Membership} :
    (g.login p membership).Consistent ∧ g.Removes (g.login p membership) := by
  rw [Game.login.eq_def]
  split
  · exact ⟨h, h.removes_refl⟩
  next honline =>
  have hfree := h.offline p (eq_false_of_ne_true honline)
  split
  · exact h.leave hfree rfl rfl
  next m =>
  have hload : Extends g (g.loadGuild m) := .loadGuild
  have h' := hload.consistent h
  have hfree' : ((g.loadGuild m).players p).guild = none := by
    rw [hload.players]
    exact hfree
  dsimp only
  split
  · next rank hrank =>
    let player : Player := ⟨true, some m.guildId, some rank, m.nick⟩
    have hplayer : player.guild = some m.guildId := rfl
    have hjoin := h'.join hfree' nofun hplayer rfl rfl (List.mem_of_find?_eq_some hrank)
    exact ⟨hjoin.1, hload.removes hjoin.2⟩
  · let player : Player := ⟨true, none, none, m.nick⟩
    have hplayer : player.guild = none := rfl
    have hleave := h'.leave hfree' hplayer rfl
    exact ⟨hleave.1, hload.removes hleave.2⟩

theorem logout (h : g.Consistent) :
    (g.logout p).Consistent ∧ g.Removes (g.logout p) := by
  have heq : g.logout p = (g.setPlayer p {}).removeFrom p (g.players p).guild := by
    rw [Game.logout]
    cases (g.players p).guild <;> rfl
  rw [heq]
  exact h.leave rfl rfl rfl

end Consistent

end Game

/-! ## Runs -/

/-- A player in a guild is not sent to another one in the game that has no rank of level 1. -/
def Enrols (g : Game π) : Action π → Prop
  | .setGuild p (some id) => ∀ old, (g.players p).guild = some old → old ≠ id →
    g.guilds id ≠ none → (g.guild id).getRankByLevel 1 ≠ none
  | _ => True

namespace Game.Consistent

omit [DecidableEq π] in
theorem getGuild_eq {newGuild : ℕ} (h : g.getGuild id = some newGuild) :
    newGuild = id ∧ g.guilds id ≠ none := by
  rw [getGuild, Option.map_eq_some_iff] at h
  obtain ⟨guild, hguild, rfl⟩ := h
  exact ⟨rfl, by rw [hguild]; exact nofun⟩

theorem apply (h : g.Consistent) {a : Action π} (ha : Enrols g a) :
    (apply g a).Consistent ∧ g.Removes (apply g a) := by
  cases a with
  | setGuild p newGuild =>
    rw [Guilds.apply]
    split
    · next honline =>
      refine h.setGuild honline fun hguild id hid hne => ?_
      obtain ⟨old, hold⟩ := Option.ne_none_iff_exists'.mp hguild
      rw [Option.bind_eq_some_iff] at hid
      obtain ⟨new, rfl, hnew⟩ := hid
      obtain ⟨rfl, hgame⟩ := getGuild_eq hnew
      exact ha old hold (fun heq => hne (heq ▸ hold)) hgame
    · exact ⟨h, h.removes_refl⟩
  | login p membership => exact h.login
  | logout p => exact h.logout

theorem consistent_apply_iff (h : g.Consistent) {a : Action π} :
    (Guilds.apply g a).Consistent ↔ Enrols g a := by
  refine ⟨fun h' => ?_, fun ha => (h.apply ha).1⟩
  match a with
  | .login .. => trivial
  | .logout _ => trivial
  | .setGuild _ none => trivial
  | .setGuild p (some id) =>
    intro old hold hne hgame hrank
    refine h.not_consistent_setGuild hold (fun heq => hne ?_) hrank ?_
    · exact Option.some.inj (hold.symm.trans heq)
    · obtain ⟨guild, hguild⟩ := Option.ne_none_iff_exists'.mp hgame
      rw [Guilds.apply, if_pos (h.online hold), Option.bind_some, getGuild, hguild] at h'
      exact h'

end Game.Consistent

/-- In every state players and guilds agree, and a guild is removed exactly when its last member
leaves it, if and only if nobody in a guild is sent to one without a rank of level 1. -/
theorem consistent_iff_enrols (l : List (Action π)) :
    ((∀ n, ((l.take n).foldl apply {}).Consistent) ∧
      ∀ n, ((l.take n).foldl apply {}).Removes ((l.take (n + 1)).foldl apply {})) ↔
    Run.Steps apply Enrols {} l := by
  have hempty : ({} : Game π).Consistent :=
    ⟨fun _ _ => rfl, nofun, fun _ _ => rfl, fun _ _ => rfl⟩
  have hiff : (∀ n, ((l.take n).foldl apply {}).Consistent) ↔ Run.Steps apply Enrols {} l :=
    Run.forall_take_iff (I := fun _ => True) (fun _ _ _ _ => trivial)
      (fun _ _ _ h => h.consistent_apply_iff) trivial hempty
  refine ⟨fun h => hiff.mp h.1, fun hsteps => ⟨hiff.mpr hsteps, fun n => ?_⟩⟩
  have hn := hiff.mpr hsteps n
  cases ha : l[n]? with
  | none =>
    rw [Run.foldl_take_of_none ha]
    exact hn.removes_refl
  | some a =>
    rw [Run.foldl_take_succ ha]
    exact (hn.apply (hsteps.at ha)).2

/-- Player 0 is the leader of guild 1, and player 1 the leader of guild 2, which has no other
rank. Then player 0 is sent to guild 2. -/
def leaders : List (Action ℕ) :=
  [.login 0 (some ⟨1, [⟨1, "the Leader", 3⟩], 1, none, ""⟩),
    .login 1 (some ⟨2, [⟨2, "the Leader", 3⟩], 2, none, ""⟩), .setGuild 0 (some 2)]

theorem not_consistent_leaders : ¬ ∀ n, ((leaders.take n).foldl apply {}).Consistent := by
  intro h
  have hmem : 0 ∈ ((leaders.foldl apply {}).guild 1).membersOnline := by decide
  have hguild := (h 3).mem_iff.mp hmem
  cases hguild

end OTServBR.Guilds
