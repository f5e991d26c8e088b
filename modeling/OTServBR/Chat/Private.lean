import Mathlib.Data.List.Nodup
import Mathlib.Logic.Relation
import OTServBR.Chat.Basic

/-! # Private channels

Whatever players do, in a private channel there are only its owner and players
that the owner has invited, and all of them are online. A player owns at most one
channel.
-/

namespace OTServBR.Channels

/-! ## One channel -/

section Channel

variable {c c' : ChatChannel} {player other p : Player} {sent : Sent} {joins : Bool}

theorem hasUser_eq_false : c.hasUser player = false ↔ ∀ p ∈ c.users, p.id ≠ player.id := by
  simp [ChatChannel.hasUser]

theorem isInvited_iff {guid : UInt32} :
    c.isInvited guid = true ↔ guid = c.owner ∨ ∃ p ∈ c.invites, p.guid = guid := by
  simp [ChatChannel.isInvited]

theorem addUser_eq (h : c.addUser player joins = (true, c', sent)) :
    (∀ p ∈ c.users, p.id ≠ player.id) ∧
      c' = { c with users := SortedMap.insert (·.id.toNat) player c.users } := by
  unfold ChatChannel.addUser at h
  split at h
  · cases h
  next hin =>
  split at h
  · cases h
  · cases h
    exact ⟨hasUser_eq_false.1 (by simpa using hin), rfl⟩

/-- A channel without a user. -/
def ChatChannel.without (c : ChatChannel) (player : Player) : ChatChannel :=
  { c with users := c.users.filter (·.id != player.id) }

theorem removeUser_eq (c : ChatChannel) (player : Player) :
    (c.removeUser player).2.1 = c.without player := by
  unfold ChatChannel.removeUser
  split
  · next hout =>
    have hnot := hasUser_eq_false.1 (by simpa using hout)
    have hall : c.users.filter (·.id != player.id) = c.users :=
      List.filter_eq_self.2 fun p hp => by simpa using hnot p hp
    rw [ChatChannel.without, hall]
  · rfl

/-- Who is in a private channel: the owner, those that are invited, and nobody else; all of them are
online, and nobody twice. -/
structure Secluded (online : List Player) (c : ChatChannel) : Prop where
  users_online : ∀ p ∈ c.users, p ∈ online
  invites_online : ∀ p ∈ c.invites, p ∈ online
  invited : ∀ p ∈ c.users, c.isInvited p.guid = true
  owner : ∃ p ∈ c.users, p.guid = c.owner
  nodup : (c.users.map (·.id)).Nodup

/-- Two players differ in their ids and in their guids. -/
structure Distinct (online : List Player) : Prop where
  ids : (online.map (·.id)).Nodup
  guids : (online.map (·.guid)).Nodup

variable {online : List Player}

theorem Distinct.guid_ne (h : Distinct online) (hp : p ∈ online) (hq : player ∈ online)
    (hne : p.id ≠ player.id) : p.guid ≠ player.guid := fun heq =>
  hne (congrArg Player.id (List.inj_on_of_nodup_map h.guids hp hq heq))

theorem Distinct.id_ne (h : Distinct online) (hp : p ∈ online) (hq : player ∈ online)
    (hne : p ≠ player) : p.id ≠ player.id := fun heq =>
  hne (List.inj_on_of_nodup_map h.ids hp hq heq)

theorem mem_insert_users (hp : p ∈ SortedMap.insert (·.id.toNat) player c.users) :
    p = player ∨ p ∈ c.users := SortedMap.mem_insert hp

/-- One more element with a value of its own. -/
theorem nodup_map_of_perm_cons {α β : Type} {f : α → β} {a : α} {l l' : List α}
    (hperm : l'.Perm (a :: l)) (h : (l.map f).Nodup) (hnew : ∀ b ∈ l, f b ≠ f a) :
    (l'.map f).Nodup := by
  refine ((hperm.map f).nodup_iff).2 (List.nodup_cons.2 ⟨fun hmem => ?_, h⟩)
  obtain ⟨b, hb, heq⟩ := List.mem_map.1 hmem
  exact hnew b hb heq

theorem insert_users_perm (hnew : ∀ p ∈ c.users, p.id ≠ player.id) :
    (SortedMap.insert (·.id.toNat) player c.users).Perm (player :: c.users) :=
  SortedMap.insert_perm fun p hp heq => hnew p hp (UInt32.toNat_inj.1 heq)

/-- An invited player enters. -/
theorem Secluded.addUser (h : Secluded online c) (hp : player ∈ online)
    (hinvited : c.isInvited player.guid = true)
    (hadd : c.addUser player joins = (true, c', sent)) : Secluded online c' := by
  obtain ⟨hnew, rfl⟩ := addUser_eq hadd
  have hperm := insert_users_perm hnew
  refine ⟨fun p hp' => ?_, h.invites_online, fun p hp' => ?_, ?_, ?_⟩
  · rcases mem_insert_users hp' with rfl | hp'
    · exact hp
    · exact h.users_online p hp'
  · rcases mem_insert_users hp' with rfl | hp'
    · exact hinvited
    · exact h.invited p hp'
  · obtain ⟨o, ho, howner⟩ := h.owner
    exact ⟨o, hperm.mem_iff.2 (List.mem_cons_of_mem _ ho), howner⟩
  · exact nodup_map_of_perm_cons hperm h.nodup hnew

/-- A player other than the owner leaves, and perhaps the invitation is withdrawn. -/
theorem Secluded.without {invites : List Player} (h : Secluded online c) (hd : Distinct online)
    (hp : player ∈ online) (howner : c.owner ≠ player.guid)
    (hinvites : invites = c.invites ∨ invites = c.invites.filter (·.guid != player.guid)) :
    Secluded online (({ c with invites := invites } : ChatChannel).without player) := by
  have hsub : ∀ p ∈ invites, p ∈ c.invites := by
    rcases hinvites with rfl | rfl
    · exact fun p hp => hp
    · exact fun p hp => List.mem_of_mem_filter hp
  refine ⟨fun p hp' => ?_, fun p hp' => h.invites_online p (hsub p hp'), fun p hp' => ?_, ?_, ?_⟩
  · exact h.users_online p (List.mem_of_mem_filter hp')
  · obtain ⟨hmem, hne⟩ := List.mem_filter.1 hp'
    have hguid : p.guid ≠ player.guid :=
      hd.guid_ne (h.users_online p hmem) hp (by simpa using hne)
    rw [isInvited_iff]
    rcases isInvited_iff.1 (h.invited p hmem) with heq | ⟨q, hq, heq⟩
    · exact .inl heq
    · refine .inr ⟨q, ?_, heq⟩
      rcases hinvites with rfl | rfl
      · exact hq
      · exact List.mem_filter.2 ⟨hq, by simpa [heq] using hguid⟩
  · obtain ⟨o, ho, heq⟩ := h.owner
    refine ⟨o, List.mem_filter.2 ⟨ho, ?_⟩, heq⟩
    rw [bne_iff_ne]
    exact fun hid => howner (heq ▸ congrArg Player.guid
      (List.inj_on_of_nodup_map hd.ids (h.users_online o ho) hp hid))
  · exact h.nodup.sublist (List.filter_sublist.map _)

theorem Secluded.invitePlayer (h : Secluded online c) (hother : other ∈ online) :
    Secluded online (c.invitePlayer player other).1 := by
  unfold ChatChannel.invitePlayer
  split
  · exact h
  · next hnew =>
    refine ⟨h.users_online, fun p hp => ?_, fun p hp => ?_, h.owner, h.nodup⟩
    · rcases SortedMap.mem_insert hp with rfl | hp
      · exact hother
      · exact h.invites_online p hp
    · have hperm : (SortedMap.insert (·.guid.toNat) other c.invites).Perm (other :: c.invites) := by
        refine SortedMap.insert_perm fun p hp heq => hnew ?_
        exact List.any_eq_true.2 ⟨p, hp, by simpa using UInt32.toNat_inj.1 heq⟩
      rw [isInvited_iff]
      rcases isInvited_iff.1 (h.invited p hp) with heq | ⟨q, hq, heq⟩
      · exact .inl heq
      · exact .inr ⟨q, hperm.mem_iff.2 (List.mem_cons_of_mem _ hq), heq⟩

theorem excludePlayer_eq (c : ChatChannel) (player other : Player) :
    (c.excludePlayer player other).1 = c ∨
      (c.excludePlayer player other).1 = (c.removeInvite other).without other := by
  unfold ChatChannel.excludePlayer
  split
  · exact .inl rfl
  · exact .inr (removeUser_eq _ _)

theorem Secluded.excludePlayer (h : Secluded online c) (hd : Distinct online)
    (hother : other ∈ online) (howner : c.owner ≠ other.guid) :
    Secluded online (c.excludePlayer player other).1 := by
  rcases excludePlayer_eq c player other with heq | heq <;> rw [heq]
  · exact h
  · exact h.without hd hother howner (.inr rfl)

end Channel

/-! ## All channels -/

/-- The channels of all four kinds. -/
def Chat.all (chat : Chat) : List ChatChannel :=
  chat.normalChannels.map (·.2) ++ chat.privateChannels.map (·.2) ++
    chat.partyChannels.map (·.2) ++ chat.guildChannels.map (·.2)

/-- Private channels have numbers and owners of their own. -/
structure Numbered (channels : ChannelMap UInt16) : Prop where
  number : ∀ e ∈ channels, e.2.id = e.1 ∧ 100 ≤ e.1.toNat ∧ e.1.toNat < 10000
  keys : (channels.map (·.1)).Nodup
  owners : (channels.map (·.2.owner)).Nodup

/-- What holds of the chat while some players are online. -/
structure Orderly (online : List Player) (chat : Chat) : Prop where
  present : ∀ c ∈ chat.all, ∀ p ∈ c.users, p ∈ online
  secluded : ∀ e ∈ chat.privateChannels, Secluded online e.2
  numbered : Numbered chat.privateChannels

section Maps

variable {κ : Type} [DecidableEq κ] {m : ChannelMap κ} {k : κ} {c c' : ChatChannel}
  {e : κ × ChatChannel} {f : ChatChannel → ChatChannel}

theorem mem_modify (h : e ∈ m.modify k f) :
    e ∈ m ∧ e.1 ≠ k ∨ ∃ c, (k, c) ∈ m ∧ e = (k, f c) := by
  obtain ⟨e', he', rfl⟩ := List.mem_map.1 h
  split
  · next heq => exact .inr ⟨e'.2, heq ▸ he', by rw [heq]⟩
  · next hne => exact .inl ⟨he', hne⟩

theorem mem_of_lookup (h : m.lookup k = some c) : (k, c) ∈ m := by
  obtain ⟨l, l', rfl, -⟩ := List.lookup_eq_some_iff.1 h
  simp

theorem keys_modify : (m.modify k f).map (·.1) = m.map (·.1) := by
  rw [ChannelMap.modify, List.map_map]
  refine List.map_congr_left fun e _ => ?_
  by_cases h : e.1 = k <;> simp [h]

omit [DecidableEq κ] in
theorem eq_of_keys (hkeys : (m.map (·.1)).Nodup) (h : (k, c) ∈ m) (h' : (k, c') ∈ m) : c = c' :=
  congrArg Prod.snd (List.inj_on_of_nodup_map hkeys h h' rfl)

end Maps

theorem Numbered.modify {m : ChannelMap UInt16} {k : UInt16} {c c' : ChatChannel}
    (h : Numbered m) (hc : (k, c) ∈ m) (hid : c'.id = c.id) (howner : c'.owner = c.owner) :
    Numbered (m.modify k fun _ => c') where
  number e he := by
    rcases mem_modify he with ⟨he, -⟩ | ⟨c'', -, rfl⟩
    · exact h.number e he
    · exact hid ▸ h.number (k, c) hc
  keys := by
    rw [keys_modify]
    exact h.keys
  owners := by
    have hsame : (m.modify k fun _ => c').map (·.2.owner) = m.map (·.2.owner) := by
      rw [ChannelMap.modify, List.map_map]
      refine List.map_congr_left fun e he => ?_
      by_cases hk : e.1 = k
      · have heq : e.2 = c := eq_of_keys h.keys (k := k) (by rw [← hk]; exact he) hc
        simp [hk, howner, heq]
      · simp [hk]
    exact hsame ▸ h.owners

theorem Numbered.insert {m : ChannelMap UInt16} {e : UInt16 × ChatChannel} (h : Numbered m)
    (hid : e.2.id = e.1 ∧ 100 ≤ e.1.toNat ∧ e.1.toNat < 10000) (hkey : ∀ e' ∈ m, e'.1 ≠ e.1)
    (howner : ∀ e' ∈ m, e'.2.owner ≠ e.2.owner) :
    Numbered (SortedMap.insert (·.1.toNat) e m) := by
  have hperm : (SortedMap.insert (·.1.toNat) e m).Perm (e :: m) :=
    SortedMap.insert_perm fun e' he' heq => hkey e' he' (UInt16.toNat_inj.1 heq)
  refine ⟨fun e' he' => ?_, ?_, ?_⟩
  · rcases SortedMap.mem_insert he' with rfl | he'
    · exact hid
    · exact h.number e' he'
  · exact nodup_map_of_perm_cons hperm h.keys hkey
  · exact nodup_map_of_perm_cons hperm h.owners howner

theorem Numbered.sublist {m m' : ChannelMap UInt16} (h : Numbered m) (hsub : m'.Sublist m) :
    Numbered m' :=
  ⟨fun e he => h.number e (hsub.subset he), h.keys.sublist (hsub.map _),
    h.owners.sublist (hsub.map _)⟩

section Chat

variable {online : List Player} {chat : Chat} {ref : Ref} {c c' : ChatChannel}

theorem mem_all_of_find (h : chat.find ref = some c) : c ∈ chat.all := by
  unfold Chat.all
  simp only [List.mem_append, List.mem_map]
  cases ref with
  | normalChannel id => exact .inl (.inl (.inl ⟨_, mem_of_lookup h, rfl⟩))
  | privateChannel id => exact .inl (.inl (.inr ⟨_, mem_of_lookup h, rfl⟩))
  | partyChannel party => exact .inl (.inr ⟨_, mem_of_lookup h, rfl⟩)
  | guildChannel id => exact .inr ⟨_, mem_of_lookup h, rfl⟩

theorem mem_map_modify {κ : Type} [DecidableEq κ] {m : ChannelMap κ} {k : κ} {d : ChatChannel}
    (h : d ∈ (m.modify k fun _ => c').map (·.2)) : d ∈ m.map (·.2) ∨ d = c' := by
  obtain ⟨e, he, rfl⟩ := List.mem_map.1 h
  rcases mem_modify he with ⟨he, -⟩ | ⟨c, -, rfl⟩
  · exact .inl (List.mem_map_of_mem he)
  · exact .inr rfl

theorem mem_all_modify {d : ChatChannel} (h : d ∈ (chat.modify (fun _ => c') ref).all) :
    d ∈ chat.all ∨ d = c' := by
  unfold Chat.all at h ⊢
  simp only [List.mem_append] at h ⊢
  cases ref <;> rcases h with ((h | h) | h) | h <;>
    first
      | exact .inl (.inl (.inl (.inl h)))
      | exact .inl (.inl (.inl (.inr h)))
      | exact .inl (.inl (.inr h))
      | exact .inl (.inr h)
      | (rcases mem_map_modify h with h | h
         · simp only [h, true_or, or_true]
         · exact .inr h)

/-- The change of one channel keeps order if the channel is in order. -/
theorem Orderly.modify (h : Orderly online chat) (hc : chat.find ref = some c)
    (hid : c'.id = c.id) (howner : c'.owner = c.owner) (hpresent : ∀ p ∈ c'.users, p ∈ online)
    (hsecluded : ∀ id, ref = .privateChannel id → Secluded online c') :
    Orderly online (chat.modify (fun _ => c') ref) where
  present d hd := by
    rcases mem_all_modify hd with hd | rfl
    · exact h.present d hd
    · exact hpresent
  secluded e he := by
    cases ref with
    | privateChannel id =>
      have he : e ∈ chat.privateChannels.modify id fun _ => c' := he
      rcases mem_modify he with ⟨he, -⟩ | ⟨-, -, rfl⟩
      · exact h.secluded e he
      · exact hsecluded id rfl
    | normalChannel id => exact h.secluded e he
    | partyChannel party => exact h.secluded e he
    | guildChannel id => exact h.secluded e he
  numbered := by
    cases ref with
    | privateChannel id => exact h.numbered.modify (mem_of_lookup hc) hid howner
    | normalChannel id => exact h.numbered
    | partyChannel party => exact h.numbered
    | guildChannel id => exact h.numbered

/-- Channels are deleted, and users of others leave. -/
theorem Orderly.restrict {chat' : Chat} (h : Orderly online chat)
    (hall : ∀ c ∈ chat'.all, ∀ p ∈ c.users, p ∈ online)
    (hsub : chat'.privateChannels.Sublist chat.privateChannels) : Orderly online chat' :=
  ⟨hall, fun e he => h.secluded e (hsub.subset he), h.numbered.sublist hsub⟩

theorem erase_modify {κ : Type} [DecidableEq κ] (m : ChannelMap κ) (k : κ)
    (f : ChatChannel → ChatChannel) : (m.modify k f).erase k = m.erase k := by
  unfold ChannelMap.modify ChannelMap.erase
  induction m with
  | nil => rfl
  | cons e m ih =>
    rw [List.map_cons]
    by_cases h : e.1 = k
    · rw [if_pos h, List.filter_cons_of_neg (by simp [h]),
        List.filter_cons_of_neg (by simp [h]), ih]
    · rw [if_neg h, List.filter_cons_of_pos (by simp [h]),
        List.filter_cons_of_pos (by simp [h]), ih]

end Chat

/-! ## The world -/

/-- The invariant of the world. -/
structure World.Orderly (w : World) : Prop where
  distinct : Distinct w.online
  chat : Channels.Orderly w.online w.chat

section World

variable {w w' : World} {scripts : Scripts} {player other : Player} {ref : Ref}
  {channelId : UInt16} {c c' : ChatChannel} {sent : Sent}

theorem mem_deleteChannel {d : ChatChannel}
    (h : d ∈ (w.deleteChannel player channelId).1.chat.all) : d ∈ w.chat.all := by
  have herase : ∀ {κ : Type} [DecidableEq κ] {m : ChannelMap κ} {k : κ},
      d ∈ (m.erase k).map (·.2) → d ∈ m.map (·.2) := by
    intro κ _ m k h
    obtain ⟨e, he, rfl⟩ := List.mem_map.1 h
    exact List.mem_map_of_mem (List.mem_of_mem_filter he)
  unfold World.deleteChannel at h
  split_ifs at h <;> split at h
  all_goals
    first
      | exact h
      | (simp only [World.setChat, Chat.all, List.mem_append] at h ⊢
         grind)

theorem privateChannels_deleteChannel :
    (w.deleteChannel player channelId).1.chat.privateChannels = w.chat.privateChannels ∨
      (w.deleteChannel player channelId).1.chat.privateChannels =
        w.chat.privateChannels.erase channelId := by
  unfold World.deleteChannel
  split_ifs <;> split
  all_goals first | exact .inl rfl | exact .inr rfl

theorem privateChannels_deleteChannel_of_ne (hguild : channelId ≠ channelGuild)
    (hparty : channelId ≠ channelParty) :
    (w.deleteChannel player channelId).1.chat.privateChannels =
      w.chat.privateChannels.erase channelId := by
  unfold World.deleteChannel
  rw [if_neg hguild, if_neg hparty]
  split
  · rfl
  · next hnone =>
    refine (List.filter_eq_self.2 fun e he => decide_eq_true (Ne.symm ?_)).symm
    exact bne_iff_ne.1 (List.lookup_eq_none_iff.1 hnone e he)

theorem online_deleteChannel : (w.deleteChannel player channelId).1.online = w.online := by
  unfold World.deleteChannel
  split_ifs <;> split <;> rfl

/-- The channel that is found for a player exists, and to a private one the player is invited. -/
theorem getChannel_eq_some (h : w.getChannel scripts player channelId = some ref) :
    ∃ c, w.chat.find ref = some c ∧ ∀ id, ref = .privateChannel id →
      c.isInvited player.guid = true ∧ id = channelId ∧ channelId ≠ channelGuild ∧
        channelId ≠ channelParty := by
  unfold World.getChannel at h
  split at h
  · split at h
    · split at h
      · next hsome =>
        obtain ⟨c, hc⟩ := Option.isSome_iff_exists.1 hsome
        cases h
        exact ⟨c, hc, by simp⟩
      · cases h
    · cases h
  next hguild =>
  split at h
  · split at h
    · split at h
      · next hsome =>
        obtain ⟨c, hc⟩ := Option.isSome_iff_exists.1 hsome
        cases h
        exact ⟨c, hc, by simp⟩
      · cases h
    · cases h
  next hparty =>
  split at h
  · next hsome =>
    split at h
    · obtain ⟨c, hc⟩ := Option.isSome_iff_exists.1 hsome
      cases h
      exact ⟨c, hc, by simp⟩
    · cases h
  · split at h
    · next c hc =>
      split at h
      · next hinvited =>
        cases h
        refine ⟨c, hc, fun id hid => ?_⟩
        cases hid
        exact ⟨hinvited, rfl, hguild, hparty⟩
      · cases h
    · cases h

/-- A player enters a channel, or nothing changes. -/
theorem addUser_world : (w.addUser scripts player ref).2.1 = w ∨
    ∃ c c' sent, w.chat.find ref = some c ∧
      c.addUser player (World.joins scripts player ref) = (true, c', sent) ∧
      (w.addUser scripts player ref).2.1 = w.setChat (w.chat.modify (fun _ => c') ref) := by
  unfold World.addUser
  split
  · next c hc =>
    split
    · next c' sent hadd => exact .inr ⟨c, c', sent, hc, hadd, rfl⟩
    · exact .inl rfl
  · exact .inl rfl

theorem World.Orderly.addUser (h : w.Orderly) (hp : player ∈ w.online)
    (hinvited : ∀ id c, ref = .privateChannel id → w.chat.find ref = some c →
      c.isInvited player.guid = true) : (w.addUser scripts player ref).2.1.Orderly := by
  rcases addUser_world with heq | ⟨c, c', sent, hc, hadd, heq⟩ <;> rw [heq]
  · exact h
  · obtain ⟨-, hc'⟩ := addUser_eq hadd
    refine ⟨h.distinct, h.chat.modify hc (by rw [hc']) (by rw [hc']) (fun p hp' => ?_)
      fun id hid => ?_⟩
    · rw [hc'] at hp'
      rcases mem_insert_users hp' with rfl | hp'
      · exact hp
      · exact h.chat.present c (mem_all_of_find hc) p hp'
    · subst hid
      exact (h.chat.secluded _ (mem_of_lookup hc)).addUser hp (hinvited id c rfl hc) hadd

/-- A player leaves a channel, which is deleted when it was the owner's, or nothing changes. -/
theorem removeUserFromChannel_world (w : World) (scripts : Scripts) (player : Player)
    (channelId : UInt16) :
    (w.removeUserFromChannel scripts player channelId).1 = w ∨
    ∃ ref c, w.getChannel scripts player channelId = some ref ∧ w.chat.find ref = some c ∧
      (c.owner ≠ player.guid ∧ (w.removeUserFromChannel scripts player channelId).1 =
          w.setChat (w.chat.modify (fun _ => c.without player) ref) ∨
        c.owner = player.guid ∧ (w.removeUserFromChannel scripts player channelId).1 =
          ((w.setChat (w.chat.modify (fun _ => c.without player) ref)).deleteChannel player
            channelId).1) := by
  unfold World.removeUserFromChannel
  split
  · next ref href =>
    split
    · next c hc =>
      split
      · next c' sent hremove =>
        have hc' : c' = c.without player := by rw [← removeUser_eq, hremove]
        subst hc'
        refine .inr ⟨ref, c, href, hc, ?_⟩
        dsimp only
        split
        · next howner => exact .inr ⟨howner, rfl⟩
        · next howner => exact .inl ⟨howner, rfl⟩
      · exact .inl rfl
    · exact .inl rfl
  · exact .inl rfl

theorem World.Orderly.removeUserFromChannel (h : w.Orderly) (hp : player ∈ w.online) :
    (w.removeUserFromChannel scripts player channelId).1.Orderly := by
  rcases removeUserFromChannel_world w scripts player channelId with heq | ⟨ref, c, href, hc, hcase⟩
  · rw [heq]
    exact h
  have hwithout : ∀ p ∈ (c.without player).users, p ∈ w.online := fun p hp' =>
    h.chat.present c (mem_all_of_find hc) p (List.mem_of_mem_filter hp')
  rcases hcase with ⟨howner, heq⟩ | ⟨howner, heq⟩ <;> rw [heq]
  · refine ⟨h.distinct, h.chat.modify hc rfl rfl hwithout fun id hid => ?_⟩
    subst hid
    exact (h.chat.secluded _ (mem_of_lookup hc)).without h.distinct hp howner (.inl rfl)
  · set v := w.setChat (w.chat.modify (fun _ => c.without player) ref) with hv
    have honline : (v.deleteChannel player channelId).1.online = w.online := online_deleteChannel
    have herase : ∀ m : ChannelMap UInt16, (m.erase channelId).Sublist m := fun m =>
      List.filter_sublist
    refine ⟨honline ▸ h.distinct, honline ▸ h.chat.restrict (fun d hd => ?_) ?_⟩
    · rcases mem_all_modify (mem_deleteChannel hd) with hd | rfl
      · exact h.chat.present d hd
      · exact hwithout
    · obtain ⟨d, -, hprivate⟩ := getChannel_eq_some href
      cases ref with
      | privateChannel id =>
        obtain ⟨-, rfl, hguild, hparty⟩ := hprivate id rfl
        rw [privateChannels_deleteChannel_of_ne hguild hparty]
        change ((w.chat.privateChannels.modify id fun _ => c.without player).erase id).Sublist _
        rw [erase_modify]
        exact herase _
      | normalChannel id | partyChannel party | guildChannel id =>
        have hcase : (v.deleteChannel player channelId).1.chat.privateChannels =
            w.chat.privateChannels ∨ (v.deleteChannel player channelId).1.chat.privateChannels =
              w.chat.privateChannels.erase channelId := privateChannels_deleteChannel
        rcases hcase with heq | heq
        · rw [heq]
        · rw [heq]
          exact herase _

/-- What a player owns is found, and it is theirs. -/
theorem getPrivateChannel_eq_some {id : UInt16}
    (h : w.chat.getPrivateChannel player = some (id, c)) :
    (id, c) ∈ w.chat.privateChannels ∧ c.owner = player.guid :=
  ⟨List.mem_of_find?_eq_some h, by simpa using List.find?_some h⟩

theorem lookup_of_mem {κ : Type} [DecidableEq κ] {m : ChannelMap κ} {k : κ}
    (hkeys : (m.map (·.1)).Nodup) (h : (k, c) ∈ m) : m.lookup k = some c := by
  cases hlookup : m.lookup k with
  | none => exact absurd rfl (bne_iff_ne.1 (List.lookup_eq_none_iff.1 hlookup _ h))
  | some d => rw [eq_of_keys hkeys h (mem_of_lookup hlookup)]

/-- The owner changes the own channel. -/
theorem World.Orderly.modifyPrivate {id : UInt16} (h : w.Orderly)
    (hc : w.chat.getPrivateChannel player = some (id, c)) (hid : c'.id = c.id)
    (howner : c'.owner = c.owner) (hsecluded : Secluded w.online c') :
    (w.setChat (w.chat.modify (fun _ => c') (.privateChannel id))).Orderly := by
  have hfind : w.chat.find (.privateChannel id) = some c :=
    lookup_of_mem h.chat.numbered.keys (getPrivateChannel_eq_some hc).1
  exact ⟨h.distinct, h.chat.modify hfind hid howner hsecluded.users_online fun _ _ => hsecluded⟩

theorem World.Orderly.channelInvite (h : w.Orderly) (hother : other ∈ w.online) :
    (w.playerChannelInvite player other).1.Orderly := by
  unfold World.playerChannelInvite
  split
  · next id c hc =>
    split
    · exact h
    · have hsecluded := h.chat.secluded _ (getPrivateChannel_eq_some hc).1
      have heq : ∀ d : ChatChannel, (d.invitePlayer player other).1.id = d.id ∧
          (d.invitePlayer player other).1.owner = d.owner := by
        intro d
        unfold ChatChannel.invitePlayer
        split <;> exact ⟨rfl, rfl⟩
      exact h.modifyPrivate hc (heq c).1 (heq c).2 (hsecluded.invitePlayer hother)
  · exact h

theorem World.Orderly.channelExclude (h : w.Orderly) (hp : player ∈ w.online)
    (hother : other ∈ w.online) : (w.playerChannelExclude player other).1.Orderly := by
  unfold World.playerChannelExclude
  split
  · next id c hc =>
    split
    · exact h
    · next hne =>
      obtain ⟨hmem, howner⟩ := getPrivateChannel_eq_some hc
      have hguid : c.owner ≠ other.guid := howner ▸ h.distinct.guid_ne hp hother
        (h.distinct.id_ne hp hother hne)
      have heq : (c.excludePlayer player other).1.id = c.id ∧
          (c.excludePlayer player other).1.owner = c.owner := by
        rcases excludePlayer_eq c player other with heq | heq <;> rw [heq] <;> exact ⟨rfl, rfl⟩
      exact h.modifyPrivate hc heq.1 heq.2
        ((h.chat.secluded _ hmem).excludePlayer h.distinct hother hguid)
  · exact h

/-! ### New channels -/

theorem freeChannel_eq_some {m : ChannelMap UInt16} {n : ℕ} {i id : UInt16}
    (hn : i.toNat + n ≤ 10000) (h : World.freeChannel m n i = some id) :
    (∀ e ∈ m, e.1 ≠ id) ∧ i.toNat ≤ id.toNat ∧ id.toNat < 10000 := by
  induction n generalizing i with
  | zero => cases h
  | succ n ih =>
    unfold World.freeChannel at h
    split at h
    · next hfree =>
      cases h
      rw [Option.isNone_iff_eq_none] at hfree
      refine ⟨fun e he hid => ?_, le_rfl, by omega⟩
      exact bne_iff_ne.1 (List.lookup_eq_none_iff.1 hfree e he) hid.symm
    · have hnext : (i + 1).toNat = i.toNat + 1 := by
        rw [UInt16.toNat_add]
        exact Nat.mod_eq_of_lt (by change i.toNat + 1 < 65536; omega)
      obtain ⟨hkey, hlow, hhigh⟩ := ih (by omega) h
      exact ⟨hkey, by omega, hhigh⟩

theorem mem_insert_empty {κ : Type} {m : ChannelMap κ} {key : κ × ChatChannel → ℕ} {k : κ}
    {d : ChatChannel} (hc : c.users = [])
    (hd : d ∈ (SortedMap.insert key (k, c) m).map (·.2)) : d ∈ m.map (·.2) ∨ d.users = [] := by
  obtain ⟨e, he, rfl⟩ := List.mem_map.1 hd
  rcases SortedMap.mem_insert he with rfl | he
  · exact .inr hc
  · exact .inl (List.mem_map_of_mem he)

/-- A channel of a guild or a party is new and empty, or nothing changes. -/
theorem createChannel_cases (hchannel : channelId ≠ channelPrivate) {isPremium : Bool} :
    (w.createChannel scripts player isPremium channelId).2 = w ∨
    ∃ chat', (w.createChannel scripts player isPremium channelId).2 = w.setChat chat' ∧
      chat'.privateChannels = w.chat.privateChannels ∧
      ∀ d ∈ chat'.all, d ∈ w.chat.all ∨ d.users = [] := by
  unfold World.createChannel
  split_ifs
  · exact .inl rfl
  · split
    · refine .inr ⟨_, rfl, rfl, fun d hd => ?_⟩
      simp only [Chat.all, List.mem_append] at hd ⊢
      rcases hd with hd | hd
      · exact .inl (.inl hd)
      · exact (mem_insert_empty rfl hd).imp_left .inr
    · exact .inl rfl
  · split
    · refine .inr ⟨_, rfl, rfl, fun d hd => ?_⟩
      simp only [Chat.all, List.mem_append] at hd ⊢
      rcases hd with (hd | hd) | hd
      · exact .inl (.inl (.inl hd))
      · exact (mem_insert_empty rfl hd).imp_left fun hd => .inl (.inr hd)
      · exact .inl (.inr hd)
    · exact .inl rfl
  · exact .inl rfl

theorem World.Orderly.offered (h : w.Orderly) (hchannel : channelId ≠ channelPrivate) :
    (w.offered scripts player channelId).2.Orderly := by
  unfold World.offered
  split
  · exact h
  · rcases createChannel_cases (w := w) hchannel with
      heq | ⟨chat', heq, hprivate, hall⟩ <;> rw [heq]
    · exact h
    · refine ⟨h.distinct, h.chat.restrict (fun d hd p hp => ?_) (hprivate ▸ List.Sublist.refl _)⟩
      rcases hall d hd with hd | hempty
      · exact h.chat.present d hd p hp
      · rw [hempty] at hp
        cases hp

theorem World.Orderly.getChannelList (h : w.Orderly) (isPremium : Bool) :
    (w.getChannelList scripts player isPremium).2.Orderly := by
  unfold World.getChannelList
  have hguild : (if (w.guild player.id).isSome then w.offered scripts player channelGuild
      else (none, w)).2.Orderly := by
    split
    · exact h.offered (by decide)
    · exact h
  generalize (if (w.guild player.id).isSome then w.offered scripts player channelGuild
      else (none, w)) = guild at hguild ⊢
  obtain ⟨guild, v⟩ := guild
  dsimp only at hguild ⊢
  have hparty : (if (v.party player.id).isSome then v.offered scripts player channelParty
      else (none, v)).2.Orderly := by
    split
    · exact hguild.offered (by decide)
    · exact hguild
  exact hparty

/-- A new private channel, or nothing changes. -/
theorem createChannel_private {isPremium : Bool} :
    w.createChannel scripts player isPremium channelPrivate = (none, w) ∨
    ∃ i name, World.freeChannel w.chat.privateChannels 9900 100 = some i ∧
      w.chat.getPrivateChannel player = none ∧
      w.createChannel scripts player isPremium channelPrivate = (some (.privateChannel i),
        w.setChat { w.chat with
          privateChannels := SortedMap.insert (·.1.toNat)
            (i, { id := i, name := name, owner := player.guid }) w.chat.privateChannels }) := by
  unfold World.createChannel
  rw [if_neg (by decide : channelPrivate ≠ channelGuild),
    if_neg (by decide : channelPrivate ≠ channelParty), if_pos rfl]
  split
  · exact .inl rfl
  split
  · exact .inl rfl
  next hown =>
  split
  · next i hfree =>
    simp only [Bool.or_eq_true, not_or, Option.isSome_iff_ne_none, not_not] at hown
    exact .inr ⟨i, _, hfree, hown.2, rfl⟩
  · exact .inl rfl

theorem World.Orderly.createPrivateChannel (h : w.Orderly) (hp : player ∈ w.online)
    {isPremium : Bool} : (w.playerCreatePrivateChannel scripts player isPremium).1.Orderly := by
  unfold World.playerCreatePrivateChannel
  split
  · exact h
  rcases createChannel_private (w := w) with heq | ⟨i, name, hfree, hown, heq⟩ <;> rw [heq]
  · exact h
  obtain ⟨hkey, hrange⟩ := freeChannel_eq_some (by decide) hfree
  set c₀ : ChatChannel := { id := i, name := name, owner := player.guid } with hc₀
  set m : ChannelMap UInt16 := SortedMap.insert (·.1.toNat) (i, c₀) w.chat.privateChannels with hm
  set v := w.setChat { w.chat with privateChannels := m } with hv
  have howner : ∀ e ∈ w.chat.privateChannels, e.2.owner ≠ player.guid := fun e he heq => by
    simpa [heq] using List.find?_eq_none.1 hown e he
  have hnumbered : Numbered m := h.chat.numbered.insert ⟨rfl, hrange⟩ hkey howner
  have hmem : (i, c₀) ∈ m := (SortedMap.insert_perm fun e he heq =>
    hkey e he (UInt16.toNat_inj.1 heq)).mem_iff.2 List.mem_cons_self
  have hfind : v.chat.find (.privateChannel i) = some c₀ := lookup_of_mem hnumbered.keys hmem
  set c₁ : ChatChannel := { c₀ with users := [player] } with hc₁
  have hadd : v.addUser scripts player (.privateChannel i) =
      (some c₁, v.setChat (v.chat.modify (fun _ => c₁) (.privateChannel i)), []) := by
    unfold World.addUser
    rw [hfind]
    rfl
  dsimp only
  rw [hadd]
  have hsecluded : Secluded w.online c₁ :=
    ⟨by simpa [hc₁] using hp, by simp [hc₁, hc₀], by simp [hc₁, hc₀, isInvited_iff],
      ⟨player, by simp [hc₁], rfl⟩, by simp [hc₁]⟩
  have hcase : ∀ e ∈ m.modify i fun _ => c₁, e ∈ w.chat.privateChannels ∨ e.2 = c₁ := by
    intro e he
    rcases mem_modify he with ⟨he, hne⟩ | ⟨-, -, rfl⟩
    · rcases SortedMap.mem_insert he with rfl | he
      · exact absurd rfl hne
      · exact .inl he
    · exact .inr rfl
  refine ⟨h.distinct, ⟨fun d hd => ?_, fun e he => ?_, hnumbered.modify hmem rfl rfl⟩⟩
  · have hpresent := h.chat.present d
    simp only [Chat.all, List.mem_append] at hd hpresent
    rcases hd with ((hd | hd) | hd) | hd
    · exact hpresent (.inl (.inl (.inl hd)))
    · obtain ⟨e, he, rfl⟩ := List.mem_map.1 hd
      rcases hcase e he with he | heq
      · exact (h.chat.secluded e he).users_online
      · exact heq ▸ hsecluded.users_online
    · exact hpresent (.inl (.inr hd))
    · exact hpresent (.inr hd)
  · rcases hcase e he with he | heq
    · exact h.chat.secluded e he
    · exact heq ▸ hsecluded

theorem World.Orderly.openChannel (h : w.Orderly) (hp : player ∈ w.online) :
    (w.playerOpenChannel scripts player channelId).1.Orderly := by
  have hadd : (w.addUserToChannel scripts player channelId).2.1.Orderly := by
    unfold World.addUserToChannel
    split
    · next ref href =>
      refine h.addUser hp fun id c hid hc => ?_
      obtain ⟨d, hd, hprivate⟩ := getChannel_eq_some href
      obtain rfl : d = c := Option.some.inj (hd.symm.trans hc)
      exact (hprivate id hid).1
    · exact h
  unfold World.playerOpenChannel
  split
  · next heq => rwa [heq] at hadd
  · next heq => rwa [heq] at hadd

/-! ### Leaving -/

theorem leavePrivate_eq (e : UInt16 × ChatChannel) : (World.leavePrivate player e).1 =
    if e.2.owner = player.guid then none
    else some (e.1, (e.2.removeInvite player).without player) := by
  unfold World.leavePrivate
  dsimp only
  rw [removeUser_eq]
  change (if e.2.owner = player.guid then _ else _ : Option _ × Sent).1 = _
  split <;> rfl

theorem mem_visit {κ : Type} {m : ChannelMap κ}
    (hc : c ∈ (m.visit fun c => (c.removeUser player).2).1.map (·.2)) :
    ∃ d ∈ m.map (·.2), c = d.without player := by
  obtain ⟨e, he, rfl⟩ := List.mem_map.1 hc
  obtain ⟨e', he', rfl⟩ := List.mem_map.1 he
  exact ⟨e'.2, List.mem_map_of_mem he', removeUser_eq _ _⟩

theorem privateChannels_removeUserFromAllChannels :
    (w.removeUserFromAllChannels player).1.chat.privateChannels = w.chat.privateChannels.filterMap
      fun e => if e.2.owner = player.guid then none
        else some (e.1, (e.2.removeInvite player).without player) := by
  unfold World.removeUserFromAllChannels
  exact List.filterMap_congr fun e _ => leavePrivate_eq e

theorem mem_private_removeUserFromAllChannels {e : UInt16 × ChatChannel}
    (he : e ∈ (w.removeUserFromAllChannels player).1.chat.privateChannels) :
    ∃ d, (e.1, d) ∈ w.chat.privateChannels ∧ d.owner ≠ player.guid ∧
      e.2 = (d.removeInvite player).without player := by
  rw [privateChannels_removeUserFromAllChannels] at he
  obtain ⟨e', he', heq⟩ := List.mem_filterMap.1 he
  split at heq
  · cases heq
  · next howner =>
    cases heq
    exact ⟨e'.2, he', howner, rfl⟩

/-- A player is in no channel anymore. -/
theorem mem_removeUserFromAllChannels
    (hc : c ∈ (w.removeUserFromAllChannels player).1.chat.all) :
    ∃ d ∈ w.chat.all, ∀ p ∈ c.users, p.id ≠ player.id ∧ p ∈ d.users := by
  have hwithout : ∀ (d : ChatChannel), ∀ p ∈ (d.without player).users,
      p.id ≠ player.id ∧ p ∈ d.users := fun d p hp => by
    obtain ⟨hp, hne⟩ := List.mem_filter.1 hp
    exact ⟨by simpa using hne, hp⟩
  have hgone : ∀ d, c = d.without player → d ∈ w.chat.all →
      ∃ d ∈ w.chat.all, ∀ p ∈ c.users, p.id ≠ player.id ∧ p ∈ d.users := by
    rintro d rfl hd
    exact ⟨d, hd, hwithout d⟩
  unfold Chat.all at hc hgone ⊢
  simp only [List.mem_append] at hc hgone ⊢
  rcases hc with ((hc | hc) | hc) | hc
  · obtain ⟨d, hd, heq⟩ := mem_visit hc
    exact hgone d heq (.inl (.inl (.inl hd)))
  · obtain ⟨e, he, rfl⟩ := List.mem_map.1 hc
    obtain ⟨d, hd, -, heq⟩ := mem_private_removeUserFromAllChannels he
    rw [heq]
    exact ⟨d, .inl (.inl (.inr (List.mem_map_of_mem hd))), hwithout _⟩
  · obtain ⟨d, hd, heq⟩ := mem_visit hc
    exact hgone d heq (.inl (.inr hd))
  · obtain ⟨d, hd, heq⟩ := mem_visit hc
    exact hgone d heq (.inr hd)

theorem Numbered.filterMap {m : ChannelMap UInt16} (h : Numbered m)
    {f : ChatChannel → ChatChannel} (hid : ∀ c, (f c).id = c.id)
    (howner : ∀ c, (f c).owner = c.owner) (P : ChatChannel → Prop) [DecidablePred P] :
    Numbered (m.filterMap fun e => if P e.2 then none else some (e.1, f e.2)) := by
  have hmap : ∀ m : ChannelMap UInt16,
      (m.filterMap fun e => if P e.2 then none else some (e.1, f e.2)) =
        (m.filter fun e => ¬ P e.2).map fun e => (e.1, f e.2) := by
    intro m
    induction m with
    | nil => rfl
    | cons e m ih =>
      by_cases hP : P e.2
      · rw [List.filterMap_cons, if_pos hP, List.filter_cons_of_neg (by simpa using hP)]
        exact ih
      · rw [List.filterMap_cons, if_neg hP, List.filter_cons_of_pos (by simpa using hP),
          List.map_cons, ← ih]
  rw [hmap]
  have hfilter := h.sublist (List.filter_sublist (p := fun e => ¬ P e.2))
  refine ⟨fun e he => ?_, ?_, ?_⟩
  · obtain ⟨e', he', rfl⟩ := List.mem_map.1 he
    exact (hid e'.2).symm ▸ hfilter.number e' he'
  · rw [List.map_map]
    exact hfilter.keys
  · rw [List.map_map]
    simpa [Function.comp_def, howner] using hfilter.owners

/-- After a player has left all channels, order holds also among the others. -/
theorem World.Orderly.removeAll (h : w.Orderly) (hp : player ∈ w.online) {online : List Player}
    (honline : ∀ p ∈ w.online, p.id ≠ player.id → p ∈ online) :
    Channels.Orderly online (w.removeUserFromAllChannels player).1.chat where
  present c hc p hp' := by
    obtain ⟨d, hd, husers⟩ := mem_removeUserFromAllChannels hc
    obtain ⟨hne, hmem⟩ := husers p hp'
    exact honline p (h.chat.present d hd p hmem) hne
  secluded e he := by
    obtain ⟨d, hd, howner, heq⟩ := mem_private_removeUserFromAllChannels he
    have hsecluded := (h.chat.secluded _ hd).without h.distinct hp howner (.inr rfl)
    rw [heq]
    refine ⟨fun p hp' => ?_, fun p hp' => ?_, hsecluded.invited, hsecluded.owner, hsecluded.nodup⟩
    · exact honline p (hsecluded.users_online p hp')
        (by simpa using (List.mem_filter.1 hp').2)
    · refine honline p (hsecluded.invites_online p hp') fun hid => ?_
      have hguid : p.guid ≠ player.guid := by simpa using (List.mem_filter.1 hp').2
      exact hguid (congrArg Player.guid
        (List.inj_on_of_nodup_map h.distinct.ids (hsecluded.invites_online p hp') hp hid))
  numbered := by
    rw [privateChannels_removeUserFromAllChannels]
    exact h.chat.numbered.filterMap (f := fun c => (c.removeInvite player).without player)
      (fun _ => rfl) (fun _ => rfl) (·.owner = player.guid)

theorem online_removeUserFromChannel :
    (w.removeUserFromChannel scripts player channelId).1.online = w.online := by
  rcases removeUserFromChannel_world w scripts player channelId with
    heq | ⟨ref, c, -, -, ⟨-, heq⟩ | ⟨-, heq⟩⟩ <;> rw [heq]
  · rfl
  · rw [online_deleteChannel]
    rfl

theorem World.Orderly.setParty (h : w.Orderly) (hp : player ∈ w.online) {party : Option ℕ} :
    (w.setParty scripts player party).1.Orderly ∧
      (w.setParty scripts player party).1.online = w.online := by
  unfold World.setParty
  have hset : ({ w with party := Function.update w.party player.id party } : World).Orderly :=
    ⟨h.distinct, h.chat⟩
  cases party with
  | some party => exact ⟨hset, rfl⟩
  | none => exact ⟨hset.removeUserFromChannel hp, online_removeUserFromChannel⟩

theorem World.Orderly.logout (h : w.Orderly) (hp : player ∈ w.online) :
    (w.logout scripts player).1.Orderly := by
  unfold World.logout
  have hparty : (if (w.party player.id).isSome then w.setParty scripts player none
      else (w, [])).1.Orderly ∧ (if (w.party player.id).isSome then w.setParty scripts player none
      else (w, [])).1.online = w.online := by
    split
    · exact h.setParty hp
    · exact ⟨h, rfl⟩
  generalize (if (w.party player.id).isSome then w.setParty scripts player none
      else (w, [])) = left at hparty ⊢
  obtain ⟨v, sent⟩ := left
  obtain ⟨hv, honline⟩ : v.Orderly ∧ v.online = w.online := hparty
  have hsub : (v.online.filter (· ≠ player)).Sublist v.online := List.filter_sublist
  refine ⟨⟨hv.distinct.ids.sublist (hsub.map _), hv.distinct.guids.sublist (hsub.map _)⟩,
    hv.removeAll (honline ▸ hp) fun p hp' hne => ?_⟩
  exact List.mem_filter.2 ⟨hp', by simpa using fun heq : p = player => hne (heq ▸ rfl)⟩

end World

/-! ## Runs -/

/-- Something happens that may happen; scripts may answer as they like each time. -/
def Step (w w' : World) : Prop :=
  ∃ (scripts : Scripts) (action : Action), action.Ok w ∧ w' = (step scripts w action).1

theorem Step.orderly {w w' : World} (hstep : Step w w') (h : w.Orderly) : w'.Orderly := by
  obtain ⟨scripts, action, hok, rfl⟩ := hstep
  cases action with
  | login player =>
    have hsub : ∀ c : ChatChannel, Secluded w.online c → Secluded (player :: w.online) c :=
      fun c hc => ⟨fun p hp => .tail _ (hc.users_online p hp),
        fun p hp => .tail _ (hc.invites_online p hp), hc.invited, hc.owner, hc.nodup⟩
    have hdistinct : Distinct (player :: w.online) :=
      ⟨nodup_map_of_perm_cons (.refl _) h.distinct.ids fun p hp => (hok p hp).1,
        nodup_map_of_perm_cons (.refl _) h.distinct.guids fun p hp => (hok p hp).2⟩
    exact ⟨hdistinct, ⟨fun c hc p hp => .tail _ (h.chat.present c hc p hp),
      fun e he => hsub e.2 (h.chat.secluded e he), h.chat.numbered⟩⟩
  | logout player => exact h.logout hok
  | connect player => exact ⟨h.distinct, h.removeAll hok fun p hp _ => hp⟩
  | setParty player party => exact (h.setParty hok).1
  | setGuild player guild => exact ⟨h.distinct, h.chat⟩
  | requestChannels player isPremium => exact h.getChannelList isPremium
  | createPrivateChannel player isPremium => exact h.createPrivateChannel hok
  | channelInvite player other => exact h.channelInvite hok.2
  | channelExclude player other => exact h.channelExclude hok.1 hok.2
  | openChannel player channelId => exact h.openChannel hok
  | closeChannel player channelId => exact h.removeUserFromChannel hok
  | talk player rankLevel type text channelId => exact h

theorem orderly_empty {normal : ChannelMap UInt16} (hempty : ∀ e ∈ normal, e.2.users = []) :
    World.Orderly { chat := { normalChannels := normal } } := by
  refine ⟨⟨List.nodup_nil, List.nodup_nil⟩, ⟨fun c hc p hp => ?_, nofun, ⟨nofun, ?_, ?_⟩⟩⟩
  · obtain ⟨e, he, rfl⟩ : ∃ e ∈ normal, e.2 = c := by simpa [Chat.all] using hc
    rw [hempty e he] at hp
    cases hp
  · exact List.nodup_nil
  · exact List.nodup_nil

/-- Whatever players do, those in a private channel are online and its owner or invited by the
owner, the owner is among them, nobody owns two channels, and nobody is in a channel of any kind
after logging out. -/
theorem orderly_of_run {normal : ChannelMap UInt16} (hempty : ∀ e ∈ normal, e.2.users = [])
    {w : World} (hrun : Relation.ReflTransGen Step { chat := { normalChannels := normal } } w) :
    w.Orderly := by
  induction hrun with
  | refl => exact orderly_empty hempty
  | tail _ hstep ih => exact hstep.orderly ih

/-! ## An example -/

def host : Player := { id := 1, guid := 11, guid_ne := by decide }
def guest : Player := { id := 2, guid := 22, guid_ne := by decide }

/-- What the two of them do. -/
def meeting : List Action :=
  [.login host, .login guest, .createPrivateChannel host true, .channelInvite host guest,
    .openChannel guest 100]

def after (actions : List Action) : World :=
  actions.foldl (fun w action => (step {} w action).1) {}

theorem orderly_of_run_meeting : (after meeting).Orderly ∧
    ((after meeting).chat.find (.privateChannel 100)).map (·.users) = some [host, guest] := by
  have hrun : Relation.ReflTransGen Step {} (after meeting) :=
    .tail (.tail (.tail (.tail (.single ⟨{}, .login host, by simp [Action.Ok], rfl⟩)
      ⟨{}, .login guest, by decide, rfl⟩) ⟨{}, .createPrivateChannel host true, by decide, rfl⟩)
      ⟨{}, .channelInvite host guest, by decide, rfl⟩) ⟨{}, .openChannel guest 100, by decide, rfl⟩
  have hempty : ∀ e ∈ ([] : ChannelMap UInt16), e.2.users = [] := by simp
  exact ⟨orderly_of_run hempty hrun, by decide⟩

end OTServBR.Channels
