import OTServBR.Chat.Private

/-! # Party channels

A player who has opened the channel of a party stays in it when leaving the party:
the channel is looked for after the party is forgotten. Only the members can close
the channel, and so one who has left hears what they say until logging out.
-/

namespace OTServBR.Channels

/-! ## Finding channels -/

section Lookup

variable {κ : Type} [DecidableEq κ] {m : ChannelMap κ} {k k' : κ} {c : ChatChannel}
  {f : ChatChannel → ChatChannel}

theorem lookup_modify :
    (m.modify k f).lookup k' = if k' = k then (m.lookup k').map f else m.lookup k' := by
  induction m with
  | nil => simp [ChannelMap.modify]
  | cons e m ih =>
    unfold ChannelMap.modify at ih ⊢
    rw [List.map_cons, List.lookup_cons, List.lookup_cons, ih]
    by_cases hk : k' = k <;> by_cases he : e.1 = k <;> by_cases he' : k' = e.1 <;> grind

theorem lookup_insert {key : κ × ChatChannel → ℕ} (hkey : ∀ e e', key e = key e' → e.1 = e'.1)
    (hne : k ≠ k') : (SortedMap.insert key (k', c) m).lookup k = m.lookup k := by
  have hbeq : (k == k') = false := beq_false_of_ne hne
  induction m with
  | nil => simp [SortedMap.insert, List.lookup_cons, hbeq]
  | cons e m ih =>
    unfold SortedMap.insert
    split
    · rw [List.lookup_cons, hbeq]
    · split
      · next heq =>
        have he : e.1 = k' := (hkey _ _ heq).symm
        rw [List.lookup_cons, List.lookup_cons, he, hbeq]
      · rw [List.lookup_cons, List.lookup_cons, ih]

theorem lookup_erase (hne : k ≠ k') : (m.erase k').lookup k = m.lookup k := by
  unfold ChannelMap.erase
  induction m with
  | nil => rfl
  | cons e m ih =>
    by_cases he : e.1 = k'
    · rw [List.filter_cons_of_neg (by simp [he]), ih, List.lookup_cons, he, beq_false_of_ne hne]
    · rw [List.filter_cons_of_pos (by simp [he]), List.lookup_cons, List.lookup_cons, ih]

theorem lookup_visit {f : ChatChannel → ChatChannel × Sent} :
    (m.visit f).1.lookup k = (m.lookup k).map fun c => (f c).1 := by
  unfold ChannelMap.visit
  dsimp only
  induction m with
  | nil => rfl
  | cons e m ih =>
    rw [List.map_cons, List.lookup_cons, List.lookup_cons, ih]
    cases k == e.1 <;> rfl

end Lookup

theorem find_modify (chat : Chat) (ref : Ref) (party : ℕ) (c' : ChatChannel) :
    (chat.modify (fun _ => c') ref).find (.partyChannel party) =
      if ref = .partyChannel party then (chat.find (.partyChannel party)).map fun _ => c'
      else chat.find (.partyChannel party) := by
  cases ref with
  | partyChannel party' =>
    change (chat.partyChannels.modify party' fun _ => c').lookup party = _
    rw [lookup_modify]
    simp only [Ref.partyChannel.injEq, eq_comm]
    rfl
  | normalChannel id | privateChannel id | guildChannel id =>
    rw [if_neg (by simp)]
    rfl

/-! ## Staying -/

/-- A player is in the channel of a party. -/
def Seated (player : Player) (party : ℕ) (w : World) : Prop :=
  ∃ c, w.chat.find (.partyChannel party) = some c ∧ player ∈ c.users ∧ c.owner = 0 ∧
    c.id = channelParty

section Seated

variable {w : World} {player other : Player} {party : ℕ} {scripts : Scripts} {ref : Ref}
  {channelId : UInt16} {c c' : ChatChannel}

/-- The channel of the party is found only for a member. -/
theorem getChannel_eq_party
    (h : w.getChannel scripts other channelId = some (.partyChannel party)) :
    channelId = channelParty ∧ w.party other.id = some party := by
  unfold World.getChannel at h
  split at h
  · split at h
    · split at h <;> cases h
    · cases h
  split at h
  · next hparty =>
    split at h
    · next heq =>
      split at h
      · cases h
        exact ⟨hparty, heq⟩
      · cases h
    · cases h
  · split at h
    · split at h <;> cases h
    · split at h
      · split at h <;> cases h
      · cases h

theorem getChannel_party (hmember : w.party other.id = some party)
    (hc : w.chat.find (.partyChannel party) = some c) :
    w.getChannel scripts other channelParty = some (.partyChannel party) := by
  unfold World.getChannel
  rw [if_neg (by decide), if_pos rfl, hmember]
  simp [hc]

theorem Seated.of_find (h : Seated player party w)
    (hc : w.chat.find (.partyChannel party) = some c) :
    player ∈ c.users ∧ c.owner = 0 ∧ c.id = channelParty := by
  obtain ⟨d, hd, hseat⟩ := h
  obtain rfl : c = d := Option.some.inj (hc.symm.trans hd)
  exact hseat

theorem Seated.modify (h : Seated player party w)
    (hsame : ref = .partyChannel party → player ∈ c'.users ∧ c'.owner = 0 ∧ c'.id = channelParty) :
    Seated player party (w.setChat (w.chat.modify (fun _ => c') ref)) := by
  obtain ⟨c, hc, hseat⟩ := h
  have hfind := find_modify w.chat ref party c'
  by_cases hparty : ref = .partyChannel party
  · rw [if_pos hparty, hc] at hfind
    exact ⟨c', hfind, hsame hparty⟩
  · rw [if_neg hparty, hc] at hfind
    exact ⟨c, hfind, hseat⟩

theorem Seated.addUser (h : Seated player party w) :
    Seated player party (w.addUser scripts other ref).2.1 := by
  rcases addUser_world (w := w) with heq | ⟨c, c', sent, hc, hadd, heq⟩ <;> rw [heq]
  · exact h
  · obtain ⟨hnew, rfl⟩ := addUser_eq hadd
    refine h.modify fun hparty => ?_
    subst hparty
    obtain ⟨hmem, howner, hid⟩ := h.of_find hc
    exact ⟨(insert_users_perm hnew).mem_iff.2 (.tail _ hmem), howner, hid⟩

theorem Seated.deleteChannel (h : Seated player party w)
    (hother : channelId = channelParty → w.party other.id ≠ some party) :
    Seated player party (w.deleteChannel other channelId).1 := by
  obtain ⟨c, hc, hseat⟩ := h
  unfold World.deleteChannel
  split_ifs with hguild hparty <;> split
  · exact ⟨c, hc, hseat⟩
  · exact ⟨c, hc, hseat⟩
  · next party' heq =>
    have hne : party ≠ party' := by
      rintro rfl
      exact hother hparty heq
    exact ⟨c, (lookup_erase hne).trans hc, hseat⟩
  · exact ⟨c, hc, hseat⟩
  · exact ⟨c, hc, hseat⟩
  · exact ⟨c, hc, hseat⟩

/-- Others leave, or the player leaves another channel. -/
theorem Seated.removeUserFromChannel (h : Seated player party w)
    (hquiet : other.id ≠ player.id ∨ channelId ≠ channelParty ∨ w.party other.id ≠ some party) :
    Seated player party (w.removeUserFromChannel scripts other channelId).1 := by
  rcases removeUserFromChannel_world w scripts other channelId with heq | ⟨ref, c, href, hc, hcase⟩
  · rw [heq]
    exact h
  have hseated : Seated player party
      (w.setChat (w.chat.modify (fun _ => c.without other) ref)) := by
    refine h.modify fun hparty => ?_
    subst hparty
    obtain ⟨hchannel, hmember⟩ := getChannel_eq_party href
    obtain ⟨hmem, howner, hid⟩ := h.of_find hc
    have hne : other.id ≠ player.id := by
      rcases hquiet with hne | hne | hne
      · exact hne
      · exact absurd hchannel hne
      · exact absurd hmember hne
    exact ⟨List.mem_filter.2 ⟨hmem, by simpa using hne.symm⟩, howner, hid⟩
  rcases hcase with ⟨-, heq⟩ | ⟨howner, heq⟩ <;> rw [heq]
  · exact hseated
  · refine hseated.deleteChannel fun hchannel hmember => ?_
    -- the channel of a party has no owner
    have hmember : w.party other.id = some party := hmember
    obtain ⟨d, hd, -, hzero, -⟩ := h
    obtain rfl : ref = .partyChannel party :=
      Option.some.inj (href.symm.trans (hchannel ▸ getChannel_party hmember hd))
    obtain rfl : c = d := Option.some.inj (hc.symm.trans hd)
    exact other.guid_ne (howner.symm.trans hzero)

theorem Seated.createChannel (h : Seated player party w) {isPremium : Bool} :
    Seated player party (w.createChannel scripts other isPremium channelId).2 := by
  obtain ⟨c, hc, hseat⟩ := h
  unfold World.createChannel
  split
  · exact ⟨c, hc, hseat⟩
  next hnone =>
  split_ifs with hguild hparty hprivate
  · split <;> exact ⟨c, hc, hseat⟩
  · subst hparty
    split
    · next party' heq =>
      have hne : party ≠ party' := by
        rintro rfl
        exact hnone (by rw [getChannel_party heq hc]; rfl)
      exact ⟨c, (lookup_insert (fun e e' heq => heq) hne).trans hc, hseat⟩
    · exact ⟨c, hc, hseat⟩
  · exact ⟨c, hc, hseat⟩
  · split <;> exact ⟨c, hc, hseat⟩
  · exact ⟨c, hc, hseat⟩

theorem Seated.removeUserFromAllChannels (h : Seated player party w) (hne : other.id ≠ player.id) :
    Seated player party (w.removeUserFromAllChannels other).1 := by
  obtain ⟨c, hc, hmem, howner, hid⟩ := h
  refine ⟨c.without other, ?_, List.mem_filter.2 ⟨hmem, by simpa using hne.symm⟩, howner, hid⟩
  change ((w.chat.partyChannels.visit fun c => (c.removeUser other).2).1).lookup party = _
  rw [lookup_visit]
  change (w.chat.find (.partyChannel party)).map _ = _
  rw [hc, Option.map_some, removeUser_eq]

/-- Leaving the party changes nothing in its channel. -/
theorem Seated.setParty (h : Seated player party w) {party' : Option ℕ} :
    Seated player party (w.setParty scripts other party').1 := by
  unfold World.setParty
  cases party' with
  | some party' => exact h
  | none =>
    have hset : Seated player party { w with party := Function.update w.party other.id none } := h
    exact hset.removeUserFromChannel (.inr (.inr (by simp)))

theorem Seated.offered (h : Seated player party w) :
    Seated player party (w.offered scripts other channelId).2 := by
  unfold World.offered
  split
  · exact h
  · exact h.createChannel

end Seated

/-- What does not take a player out of the channel of a party: the player neither logs out nor is
taken over by another client, and does not close the channel while a member. -/
def Stays (player : Player) (party : ℕ) (w : World) : Action → Prop
  | .logout other | .connect other => other.id ≠ player.id
  | .closeChannel other channelId =>
    other.id ≠ player.id ∨ channelId ≠ channelParty ∨ w.party other.id ≠ some party
  | _ => True

section Runs

variable {w w' : World} {player : Player} {party : ℕ}

theorem Seated.step {scripts : Scripts} {action : Action} (h : Seated player party w)
    (hstays : Stays player party w action) : Seated player party (step scripts w action).1 := by
  cases action with
  | login other => exact h
  | logout other =>
    have hleft : Seated player party (if (w.party other.id).isSome then
        w.setParty scripts other none else (w, [])).1 := by
      split
      · exact h.setParty
      · exact h
    exact hleft.removeUserFromAllChannels hstays
  | connect other => exact h.removeUserFromAllChannels hstays
  | setParty other party' => exact h.setParty
  | setGuild other guild => exact h
  | requestChannels other isPremium =>
    have hguild : Seated player party (if (w.guild other.id).isSome then
        w.offered scripts other channelGuild else (none, w)).2 := by
      split
      · exact h.offered
      · exact h
    change Seated player party (if _ then _ else _ : Option Ref × World).2
    split
    · exact hguild.offered
    · exact hguild
  | createPrivateChannel other isPremium =>
    change Seated player party (w.playerCreatePrivateChannel scripts other isPremium).1
    unfold World.playerCreatePrivateChannel
    split
    · exact h
    have hcreated : Seated player party
        (w.createChannel scripts other isPremium channelPrivate).2 := h.createChannel
    split
    · next ref v heq =>
      rw [heq] at hcreated
      have hadded : Seated player party (v.addUser scripts other ref).2.1 := hcreated.addUser
      split
      · next heq => rwa [heq] at hadded
      · next heq => rwa [heq] at hadded
    · next heq => rwa [heq] at hcreated
  | channelInvite other invited =>
    change Seated player party (w.playerChannelInvite other invited).1
    unfold World.playerChannelInvite
    split
    · split
      · exact h
      · exact h.modify (by simp)
    · exact h
  | channelExclude other excluded =>
    change Seated player party (w.playerChannelExclude other excluded).1
    unfold World.playerChannelExclude
    split
    · split
      · exact h
      · exact h.modify (by simp)
    · exact h
  | openChannel other channelId =>
    have hadd : Seated player party (w.addUserToChannel scripts other channelId).2.1 := by
      unfold World.addUserToChannel
      split
      · exact h.addUser
      · exact h
    change Seated player party (w.playerOpenChannel scripts other channelId).1
    unfold World.playerOpenChannel
    split
    · next heq => rwa [heq] at hadd
    · next heq => rwa [heq] at hadd
  | closeChannel other channelId => exact h.removeUserFromChannel hstays
  | talk other rankLevel type text channelId => exact h

/-- A step that leaves a player in the channel of a party. -/
def StayStep (player : Player) (party : ℕ) (w w' : World) : Prop :=
  ∃ (scripts : Scripts) (action : Action), Stays player party w action ∧
    w' = (step scripts w action).1

theorem Seated.run (h : Seated player party w)
    (hrun : Relation.ReflTransGen (StayStep player party) w w') : Seated player party w' := by
  induction hrun with
  | refl => exact h
  | tail _ hstep ih =>
    obtain ⟨scripts, action, hstays, rfl⟩ := hstep
    exact ih.step hstays

/-- Whoever has opened the channel of a party hears what is said in it, also after leaving the
party. -/
theorem hears_of_run (h : Seated player party w)
    (hrun : Relation.ReflTransGen (StayStep player party) w w') {speaker : Player}
    (hspeaker : Seated speaker party w') (hmember : w'.party speaker.id = some party)
    (scripts : Scripts) (rankLevel : Option ℕ) (type : SpeakClass) (text : Str) :
    (player, .toChannel speaker .channelY text channelParty) ∈
      (w'.talkToChannel scripts speaker rankLevel type text channelParty).2 := by
  obtain ⟨c, hc, hmem, -, hid⟩ := h.run hrun
  obtain ⟨hspeaks, -, -⟩ := hspeaker.of_find hc
  have hchannel : w'.getChannel scripts speaker channelParty = some (.partyChannel party) :=
    getChannel_party hmember hc
  have huser : c.hasUser speaker = true := by
    unfold ChatChannel.hasUser
    exact List.any_eq_true.2 ⟨speaker, hspeaks, by simp⟩
  unfold World.talkToChannel
  rw [hchannel]
  simp only [hc, ChatChannel.talk, huser, ChatChannel.toUsers]
  refine List.mem_map.2 ⟨player, hmem, ?_⟩
  rw [hid]
  rfl

end Runs

/-! ## An example -/

/-- Two members of a party whose channel both have opened. -/
def lounge : World where
  online := [host, guest]
  party _ := some 7
  chat := { partyChannels := [(7, { id := channelParty, users := [host, guest] })] }

def deserted : World := (step {} lounge (.setParty guest none)).1

theorem hears_of_run_deserted : deserted.party guest.id = none ∧
    (guest, .toChannel host .channelY [104, 105] channelParty) ∈
      (deserted.talkToChannel {} host none .channelY [104, 105] channelParty).2 := by
  have hguest : Seated guest 7 lounge := ⟨_, rfl, by decide, rfl, rfl⟩
  have hhost : Seated host 7 deserted := ⟨_, rfl, by decide, rfl, rfl⟩
  have hleave : StayStep guest 7 lounge deserted := ⟨{}, .setParty guest none, trivial, rfl⟩
  exact ⟨by decide, hears_of_run hguest (.single hleave) hhost (by decide) {} none .channelY
    [104, 105]⟩

end OTServBR.Channels
