import OTServBR.Lib.Run
import OTServBR.Party.Basic

/-! # The lists of a party agree

A player refers to a party exactly if the party counts him among its players,
and a party invites him exactly if it is among those he is invited to. What an
operation takes off one side it takes off the other, and a party that nobody
shares with its leader is gone with every reference to it.
-/

namespace OTServBR.Parties.Game

variable {ι π : Type*} [DecidableEq ι] [DecidableEq π] {g g' : Game ι π} {p q : π} {i player : ι}
  {party : Party ι}

/-- Both sides of every reference agree. -/
structure Linked (g : Game ι π) : Prop where
  party_iff : ∀ {p party i}, g.parties p = some party → (g.party i = some p ↔ i ∈ party.players)
  invited_iff : ∀ {p party i},
    g.parties p = some party → (p ∈ g.invitePartyList i ↔ i ∈ party.inviteList)
  party_exists : ∀ {p i}, g.party i = some p → (g.parties p).isSome
  inviting_exists : ∀ {p i}, p ∈ g.invitePartyList i → (g.parties p).isSome
  players_nodup : ∀ {p party}, g.parties p = some party → party.players.Nodup
  inviteList_nodup : ∀ {p party}, g.parties p = some party → party.inviteList.Nodup
  invitePartyList_nodup : ∀ {i}, (g.invitePartyList i).Nodup
  offline : ∀ {i}, g.online i = false → g.party i = none ∧ g.invitePartyList i = []

/-- Every party has a member or an invitee besides its leader. -/
def Accompanied (g : Game ι π) : Prop := ∀ {p party}, g.parties p = some party → !party.empty

structure Consistent (g : Game ι π) : Prop extends Linked g where
  accompanied : Accompanied g

/-! ## Dissolving a party -/

omit [DecidableEq π] in
theorem foldl_setParty (l : List ι) (g : Game ι π) :
    l.foldl (fun g member => g.setParty member none) g =
      { g with party := fun i => if i ∈ l then none else g.party i } := by
  induction l generalizing g with
  | nil => simp
  | cons member l ih =>
    rw [List.foldl_cons, ih]
    ext1
    case party =>
      ext1 i
      by_cases hi : i = member <;> simp [setParty, hi]
    all_goals rfl

theorem foldl_removePartyInvitation (l : List ι) (p : π) (g : Game ι π) :
    l.foldl (fun g invitee => g.removePartyInvitation invitee p) g =
      { g with
        invitePartyList := fun i =>
          if i ∈ l then (g.invitePartyList i).filter fun q => q ≠ p else g.invitePartyList i } := by
  induction l generalizing g with
  | nil => simp
  | cons invitee l ih =>
    rw [List.foldl_cons, ih]
    ext1
    case invitePartyList =>
      ext1 i
      by_cases hi : i = invitee <;> simp [removePartyInvitation, hi]
    all_goals rfl

theorem disband_eq (h : g.parties p = some party) :
    g.disband p =
      { g with
        party := fun i => if i ∈ party.players then none else g.party i
        invitePartyList := fun i =>
          if i ∈ party.inviteList then (g.invitePartyList i).filter fun q => q ≠ p
          else g.invitePartyList i
        parties := Function.update g.parties p none } := by
  unfold disband
  rw [h]
  dsimp only
  rw [foldl_setParty, foldl_removePartyInvitation]
  ext1
  case party =>
    ext1 i
    by_cases hi : i = party.leader <;> simp [setParty, Party.players, hi]
  all_goals rfl

/-- No reference to the party is left. -/
def dissolved (g : Game ι π) (p : π) : Game ι π :=
  { g with
    party := fun i => if g.party i = some p then none else g.party i
    invitePartyList := fun i => (g.invitePartyList i).filter fun q => q ≠ p
    parties := Function.update g.parties p none }

omit [DecidableEq ι] in
theorem dissolved_parties :
    (g.dissolved p).parties q = some party ↔ q ≠ p ∧ g.parties q = some party := by
  by_cases hqp : q = p <;> simp [dissolved, hqp]

namespace Linked

variable (h : Linked g)

include h

theorem disband_eq_dissolved (hp : g.parties p = some party) :
    g.disband p = g.dissolved p := by
  rw [disband_eq hp]
  ext1
  case party =>
    ext1 i
    exact if_congr (h.party_iff hp).symm rfl rfl
  case invitePartyList =>
    ext1 i
    dsimp only [dissolved]
    split
    case isTrue => rfl
    case isFalse hi =>
      refine (List.filter_eq_self.mpr fun q hq => decide_eq_true ?_).symm
      rintro rfl
      exact hi ((h.invited_iff hp).mp hq)
  all_goals rfl

omit [DecidableEq ι] in
theorem dissolved (p : π) : Linked (g.dissolved p) := by
  have hparty (q : π) (i : ι) :
      (g.dissolved p).party i = some q ↔ q ≠ p ∧ g.party i = some q := by
    simp only [Game.dissolved]
    grind
  have hinvited (q : π) (i : ι) :
      q ∈ (g.dissolved p).invitePartyList i ↔ q ≠ p ∧ q ∈ g.invitePartyList i := by
    simp [Game.dissolved, and_comm]
  have hparties (q : π) (hq : q ≠ p) : (g.dissolved p).parties q = g.parties q :=
    Function.update_of_ne hq _ _
  constructor
  · rintro q party i hq
    obtain ⟨hne, hq⟩ := dissolved_parties.mp hq
    rw [hparty, ← h.party_iff hq, and_iff_right hne]
  · rintro q party i hq
    obtain ⟨hne, hq⟩ := dissolved_parties.mp hq
    rw [hinvited, ← h.invited_iff hq, and_iff_right hne]
  · rintro q i hi
    obtain ⟨hne, hi⟩ := (hparty q i).mp hi
    rw [hparties q hne]
    exact h.party_exists hi
  · rintro q i hi
    obtain ⟨hne, hi⟩ := (hinvited q i).mp hi
    rw [hparties q hne]
    exact h.inviting_exists hi
  · rintro q party hq
    exact h.players_nodup (dissolved_parties.mp hq).2
  · rintro q party hq
    exact h.inviteList_nodup (dissolved_parties.mp hq).2
  · exact h.invitePartyList_nodup.filter _
  · rintro i hi
    obtain ⟨hnone, hnil⟩ := h.offline hi
    simp [Game.dissolved, hnone, hnil]

end Linked

/-! ## One party changes -/

/-- What an operation on one party does to it and to one player. -/
structure Changes (g g' : Game ι π) (p : π) (party : Party ι) (player : ι) : Prop where
  online : g'.online = g.online
  new : g'.parties p = some party
  others : ∀ q ≠ p, g'.parties q = g.parties q
  party_else : ∀ i, i ≠ player → g'.party i = g.party i
  invited_else : ∀ i, i ≠ player → g'.invitePartyList i = g.invitePartyList i
  party_other : ∀ q ≠ p, g'.party player = some q ↔ g.party player = some q
  invited_other : ∀ q ≠ p, q ∈ g'.invitePartyList player ↔ q ∈ g.invitePartyList player

theorem Linked.changes (h : Linked g) (hc : Changes g g' p party player)
    (hparty : g'.party player = some p ↔ player ∈ party.players)
    (hplayers : ∀ i ≠ player, g.party i = some p ↔ i ∈ party.players)
    (hinvited : p ∈ g'.invitePartyList player ↔ player ∈ party.inviteList)
    (hinvitees : ∀ i ≠ player, p ∈ g.invitePartyList i ↔ i ∈ party.inviteList)
    (hnodup : party.players.Nodup) (hinviteList : party.inviteList.Nodup)
    (hlist : (g'.invitePartyList player).Nodup)
    (honline : g.online player) : Linked g' := by
  have hparty_iff (q : π) (i : ι) (hq : q ≠ p) : g'.party i = some q ↔ g.party i = some q := by
    by_cases hi : i = player
    · rw [hi, hc.party_other q hq]
    · rw [hc.party_else i hi]
  have hinvited_iff (q : π) (i : ι) (hq : q ≠ p) :
      q ∈ g'.invitePartyList i ↔ q ∈ g.invitePartyList i := by
    by_cases hi : i = player
    · rw [hi, hc.invited_other q hq]
    · rw [hc.invited_else i hi]
  have hnew {party' : Party ι} (hp : g'.parties p = some party') : party' = party := by
    rw [hc.new] at hp
    exact (Option.some.inj hp).symm
  constructor
  · rintro q party' i hq
    by_cases hqp : q = p
    · subst hqp
      rw [hnew hq]
      by_cases hi : i = player
      · rw [hi, hparty]
      · rw [hc.party_else i hi, hplayers i hi]
    · rw [hc.others q hqp] at hq
      rw [hparty_iff q i hqp, h.party_iff hq]
  · rintro q party' i hq
    by_cases hqp : q = p
    · subst hqp
      rw [hnew hq]
      by_cases hi : i = player
      · rw [hi, hinvited]
      · rw [hc.invited_else i hi, hinvitees i hi]
    · rw [hc.others q hqp] at hq
      rw [hinvited_iff q i hqp, h.invited_iff hq]
  · rintro q i hi
    by_cases hqp : q = p
    · simp [hqp, hc.new]
    · rw [hc.others q hqp]
      exact h.party_exists ((hparty_iff q i hqp).mp hi)
  · rintro q i hi
    by_cases hqp : q = p
    · simp [hqp, hc.new]
    · rw [hc.others q hqp]
      exact h.inviting_exists ((hinvited_iff q i hqp).mp hi)
  · rintro q party' hq
    by_cases hqp : q = p
    · subst hqp
      rwa [hnew hq]
    · rw [hc.others q hqp] at hq
      exact h.players_nodup hq
  · rintro q party' hq
    by_cases hqp : q = p
    · subst hqp
      rwa [hnew hq]
    · rw [hc.others q hqp] at hq
      exact h.inviteList_nodup hq
  · rintro i
    by_cases hi : i = player
    · rwa [hi]
    · rw [hc.invited_else i hi]
      exact h.invitePartyList_nodup
  · rintro i hi
    rw [hc.online] at hi
    have hne : i ≠ player := by
      rintro rfl
      simp [honline] at hi
    rw [hc.party_else i hne, hc.invited_else i hne]
    exact h.offline hi

omit [DecidableEq ι] [DecidableEq π] in
theorem Linked.online_of_party (h : Linked g) (hi : g.party i = some p) : g.online i := by
  by_contra hoff
  rw [(h.offline (eq_false_of_ne_true hoff)).1] at hi
  cases hi

omit [DecidableEq ι] [DecidableEq π] in
theorem Linked.online_of_invited (h : Linked g) (hi : p ∈ g.invitePartyList i) : g.online i := by
  by_contra hoff
  rw [(h.offline (eq_false_of_ne_true hoff)).2] at hi
  cases hi

omit [DecidableEq ι] in
theorem modifyParty_eq (hp : g.parties p = some party) (f : Party ι → Party ι) :
    g.modifyParty p f = { g with parties := Function.update g.parties p (some (f party)) } := by
  rw [modifyParty, hp, Option.map_some]

/-- A party that is left empty is disbanded. -/
theorem Linked.settle (h : Linked g)
    (hothers : ∀ {q party}, q ≠ p → g.parties q = some party → !party.empty) :
    Consistent (if g.isEmpty p then g.disband p else g) := by
  cases hp : g.parties p with
  | none =>
    rw [isEmpty, hp, Option.any_none, if_neg Bool.false_ne_true]
    refine ⟨h, fun {q party} hq => hothers ?_ hq⟩
    rintro rfl
    rw [hp] at hq
    cases hq
  | some party =>
    rw [isEmpty, hp, Option.any_some]
    split
    case isTrue =>
      rw [h.disband_eq_dissolved hp]
      refine ⟨h.dissolved p, fun {q party} hq => ?_⟩
      obtain ⟨hne, hq⟩ := dissolved_parties.mp hq
      exact hothers hne hq
    case isFalse hempty =>
      refine ⟨h, fun {q party'} hq => ?_⟩
      by_cases hqp : q = p
      · subst hqp
        obtain rfl : party = party' := Option.some.inj (hp.symm.trans hq)
        simpa using hempty
      · exact hothers hqp hq

/-! ## The operations of a party -/

section Operations

omit [DecidableEq ι] [DecidableEq π] in
theorem Linked.mem_memberList (h : Linked g) (hp : g.parties p = some party)
    (hne : party.leader ≠ player) (hplayer : g.party player = some p) :
    player ∈ party.memberList :=
  (List.mem_cons.mp ((h.party_iff hp).mp hplayer)).resolve_left hne.symm

theorem passPartyLeadership_eq (hp : g.parties p = some party) (hne : party.leader ≠ player)
    (hplayer : g.party player = some p) :
    g.passPartyLeadership p player =
      { g with parties := Function.update g.parties p (some (party.passTo player)) } := by
  unfold passPartyLeadership
  rw [hp]
  dsimp only
  rw [if_neg (by simp [hne, hplayer]), modifyParty_eq hp]

theorem passTo_perm (hmem : player ∈ party.memberList) :
    (party.passTo player).players.Perm party.players :=
  (List.Perm.swap _ _ _).trans ((List.perm_cons_erase hmem).symm.cons _)

theorem Consistent.passPartyLeadership (h : Consistent g) (p : π) (player : ι) :
    Consistent (g.passPartyLeadership p player) := by
  cases hp : g.parties p with
  | none => simpa only [Game.passPartyLeadership, hp] using h
  | some party =>
    by_cases hstay : party.leader = player ∨ g.party player ≠ some p
    · simpa only [Game.passPartyLeadership, hp, if_pos hstay] using h
    · rw [not_or, not_not] at hstay
      obtain ⟨hne, hplayer⟩ := hstay
      rw [passPartyLeadership_eq hp hne hplayer]
      have hperm := passTo_perm (h.mem_memberList hp hne hplayer)
      have hinvited (i : ι) := h.invited_iff (i := i) hp
      have hnodup := h.inviteList_nodup hp
      constructor
      · refine h.toLinked.changes (show Changes g _ p (party.passTo player) player from
          ⟨rfl, Function.update_self _ _ _, fun q hq => Function.update_of_ne hq _ _,
            fun _ _ => rfl, fun _ _ => rfl, fun _ _ => Iff.rfl, fun _ _ => Iff.rfl⟩)
          ?_ ?_ ?_ ?_ ?_ ?_ ?_ ?_
        · rw [hperm.mem_iff, ← h.party_iff hp]
        · rintro i -
          rw [hperm.mem_iff, h.party_iff hp]
        · exact hinvited player
        · rintro i -
          exact hinvited i
        · exact hperm.nodup_iff.mpr (h.players_nodup hp)
        · exact hnodup
        · exact h.invitePartyList_nodup
        · exact h.online_of_party hplayer
      · rintro q party' hq
        by_cases hqp : q = p
        · subst hqp
          obtain rfl : party.passTo player = party' := by simpa using hq
          rfl
        · exact h.accompanied ((Function.update_of_ne hqp _ _).symm.trans hq)

theorem Linked.without (h : Linked g) (hp : g.parties p = some party)
    (hne : party.leader ≠ player) (hplayer : g.party player = some p) :
    Linked ((g.modifyParty p fun party => party.without player).setParty player none) := by
  have hinvited (i : ι) := h.invited_iff (i := i) hp
  have hinvitees := h.inviteList_nodup hp
  have hnodup := h.players_nodup hp
  obtain ⟨hleader, hmembers⟩ := List.nodup_cons.mp hnodup
  have hplayers : (party.without player).players = party.players.erase player := by
    rw [Party.players, Party.players, List.erase_cons_tail (by simpa using hne)]
    rfl
  rw [modifyParty_eq hp]
  refine h.changes (show Changes g _ p (party.without player) player from
    ⟨rfl, Function.update_self _ _ _, fun q hq => Function.update_of_ne hq _ _,
      fun i hi => Function.update_of_ne hi _ _, fun _ _ => rfl, fun q hq => ?_, fun _ _ => Iff.rfl⟩)
    ?_ ?_ ?_ ?_ ?_ ?_ ?_ ?_
  · simp [setParty, hplayer, hq.symm]
  · simp [hplayers, hnodup.mem_erase_iff, setParty]
  · rintro i hi
    rw [hplayers, hnodup.mem_erase_iff, and_iff_right hi, h.party_iff hp]
  · exact hinvited player
  · rintro i -
    exact hinvited i
  · rw [hplayers]
    exact hnodup.erase player
  · exact hinvitees
  · exact h.invitePartyList_nodup
  · exact h.online_of_party hplayer

theorem Linked.joined (h : Linked g) (hp : g.parties p = some party)
    (hmem : player ∈ party.inviteList) (hplayer : g.party player = none) :
    Linked (((g.modifyParty p fun party => party.joined player).setParty player
      (some p)).removePartyInvitation player p) := by
  have hinvitees := h.inviteList_nodup hp
  have hnot : player ∉ party.players := by
    rw [← h.party_iff hp, hplayer]
    rintro ⟨⟩
  have hplayers : (party.joined player).players = party.players ++ [player] := rfl
  rw [modifyParty_eq hp]
  refine h.changes (show Changes g _ p (party.joined player) player from
    ⟨rfl, Function.update_self _ _ _, fun q hq => Function.update_of_ne hq _ _,
      fun i hi => Function.update_of_ne hi _ _, fun i hi => Function.update_of_ne hi _ _,
      fun q hq => ?_, fun q hq => ?_⟩)
    ?_ ?_ ?_ ?_ ?_ ?_ ?_ ?_
  · simp [removePartyInvitation, setParty, hplayer, hq.symm]
  · simp [removePartyInvitation, setParty, hq]
  · simp [removePartyInvitation, setParty, hplayers]
  · rintro i hi
    simp [hplayers, hi, h.party_iff hp]
  · simp [removePartyInvitation, setParty, Party.joined, hinvitees.mem_erase_iff]
  · rintro i hi
    rw [h.invited_iff hp, Party.joined, hinvitees.mem_erase_iff, and_iff_right hi]
  · rw [hplayers, List.perm_append_comm.nodup_iff]
    exact List.nodup_cons.mpr ⟨hnot, h.players_nodup hp⟩
  · exact hinvitees.erase player
  · simp only [removePartyInvitation, setParty, Function.update_self]
    exact h.invitePartyList_nodup.filter _
  · exact h.online_of_invited ((h.invited_iff hp).mpr hmem)

theorem Linked.uninvited (h : Linked g) (hp : g.parties p = some party)
    (hmem : player ∈ party.inviteList) :
    Linked ((g.modifyParty p fun party => party.uninvited player).removePartyInvitation
      player p) := by
  have hinvitees := h.inviteList_nodup hp
  have hplayers (i : ι) := h.party_iff (i := i) hp
  have hnodup := h.players_nodup hp
  rw [modifyParty_eq hp]
  refine h.changes (show Changes g _ p (party.uninvited player) player from
    ⟨rfl, Function.update_self _ _ _, fun q hq => Function.update_of_ne hq _ _,
      fun _ _ => rfl, fun i hi => Function.update_of_ne hi _ _, fun _ _ => Iff.rfl, fun q hq => ?_⟩)
    ?_ ?_ ?_ ?_ ?_ ?_ ?_ ?_
  · simp [removePartyInvitation, hq]
  · exact hplayers player
  · rintro i -
    exact hplayers i
  · simp [removePartyInvitation, Party.uninvited, hinvitees.mem_erase_iff]
  · rintro i hi
    rw [h.invited_iff hp, Party.uninvited, hinvitees.mem_erase_iff, and_iff_right hi]
  · exact hnodup
  · exact hinvitees.erase player
  · simp only [removePartyInvitation, Function.update_self]
    exact h.invitePartyList_nodup.filter _
  · exact h.online_of_invited ((h.invited_iff hp).mpr hmem)

theorem Linked.invited (h : Linked g) (hp : g.parties p = some party)
    (hnot : player ∉ party.inviteList) (honline : g.online player) :
    Linked ((g.modifyParty p fun party => party.invited player).addPartyInvitation player p) := by
  have hinvitees := h.inviteList_nodup hp
  have hplayers (i : ι) := h.party_iff (i := i) hp
  have hnodup := h.players_nodup hp
  have hnew : p ∉ g.invitePartyList player := by rwa [h.invited_iff hp]
  have hlist : (p :: g.invitePartyList player).Nodup :=
    List.nodup_cons.mpr ⟨hnew, h.invitePartyList_nodup⟩
  rw [modifyParty_eq hp, addPartyInvitation, if_neg hnew]
  refine h.changes (show Changes g _ p (party.invited player) player from
    ⟨rfl, Function.update_self _ _ _, fun q hq => Function.update_of_ne hq _ _,
      fun _ _ => rfl, fun i hi => Function.update_of_ne hi _ _, fun _ _ => Iff.rfl, fun q hq => ?_⟩)
    ?_ ?_ ?_ ?_ ?_ ?_ ?_ ?_
  · simp [hq]
  · exact hplayers player
  · rintro i -
    exact hplayers i
  · simp [Party.invited]
  · rintro i hi
    simp [Party.invited, hi, h.invited_iff hp]
  · exact hnodup
  · rw [Party.invited, List.perm_append_comm.nodup_iff]
    exact List.nodup_cons.mpr ⟨hnot, hinvitees⟩
  · simpa using hlist
  · exact honline

/-- The constructor of a party. -/
theorem Linked.created (h : Linked g) (hp : g.parties p = none) (hplayer : g.party player = none)
    (honline : g.online player) :
    Linked ({ g with parties := Function.update g.parties p (some { leader := player }) }.setParty
      player (some p)) := by
  have hparty (i : ι) : g.party i ≠ some p := by
    rintro hi
    simpa [hp] using h.party_exists hi
  have hinvited (i : ι) : p ∉ g.invitePartyList i := by
    rintro hi
    simpa [hp] using h.inviting_exists hi
  refine h.changes (show Changes g _ p { leader := player } player from
    ⟨rfl, Function.update_self _ _ _, fun q hq => Function.update_of_ne hq _ _,
      fun i hi => Function.update_of_ne hi _ _, fun _ _ => rfl, fun q hq => ?_, fun _ _ => Iff.rfl⟩)
    ?_ ?_ ?_ ?_ ?_ ?_ ?_ ?_
  · simp [setParty, hplayer, hq.symm]
  · simp [setParty, Party.players]
  · rintro i hi
    simp [Party.players, hi, hparty i]
  · simp [setParty, hinvited player]
  · rintro i -
    simp [hinvited i]
  · exact List.nodup_cons.mpr ⟨List.not_mem_nil, List.nodup_nil⟩
  · exact List.nodup_nil
  · exact h.invitePartyList_nodup
  · exact honline

/-- What is removed from a player together with a party, and nothing else. -/
structure Fades (g g' : Game ι π) : Prop where
  online : g'.online = g.online
  party : ∀ i, g.party i = none → g'.party i = none
  invited : ∀ i, g.invitePartyList i = [] → g'.invitePartyList i = []

omit [DecidableEq ι] in
theorem dissolved_fades (g : Game ι π) (p : π) : Fades g (g.dissolved p) := by
  constructor
  · rfl
  · rintro i hi
    simp [dissolved, hi]
  · rintro i hi
    simp [dissolved, hi]

omit [DecidableEq ι] [DecidableEq π] in
theorem Fades.trans {g'' : Game ι π} (h : Fades g g') (h' : Fades g' g'') : Fades g g'' where
  online := h'.online.trans h.online
  party i hi := h'.party i (h.party i hi)
  invited i hi := h'.invited i (h.invited i hi)

theorem settle_fades (h : Linked g) (p : π) :
    Fades g (if g.isEmpty p then g.disband p else g) := by
  split
  case isTrue hempty =>
    obtain ⟨party, hp⟩ : ∃ party, g.parties p = some party := by
      cases hp : g.parties p with
      | none => simp [isEmpty, hp] at hempty
      | some party => exact ⟨party, rfl⟩
    rw [h.disband_eq_dissolved hp]
    exact dissolved_fades g p
  case isFalse => exact ⟨rfl, fun _ h => h, fun _ h => h⟩

/-- The leader of a party without another player is not replaced, and the party goes with him. -/
theorem disband_without (h : Linked g) (hp : g.parties p = some party)
    (hleader : party.leader = player) :
    ((g.modifyParty p fun party => party.without player).setParty player none).disband p =
      g.dissolved p := by
  have hnot : player ∉ party.memberList := by
    rw [← hleader]
    exact (List.nodup_cons.mp (h.players_nodup hp)).1
  have hparty : party.without player = party := by
    rw [Party.without, List.erase_of_not_mem hnot]
  have hmem : player ∈ party.players := by simp [Party.players, hleader]
  have hself : Function.update g.parties p (some party) p = some party := Function.update_self _ _ _
  rw [modifyParty_eq hp, hparty, disband_eq hself, ← h.disband_eq_dissolved hp, disband_eq hp]
  ext1
  case party =>
    ext1 i
    by_cases hi : i = player
    · simp [hi, hmem]
    · simp [setParty, hi]
  case parties => simp [setParty]
  all_goals rfl

omit [DecidableEq ι] in
theorem Consistent.dissolved (h : Consistent g) (p : π) : Consistent (g.dissolved p) :=
  ⟨h.toLinked.dissolved p, fun hq => h.accompanied (dissolved_parties.mp hq).2⟩

/-- The party that a player leaves has another leader by then, or nobody who could lead it. -/
theorem findLeader_cases (h : Consistent g) (hp : g.parties p = some party)
    (hplayer : g.party player = some p) :
    g.findLeader p party player = (true, g) ∧ party.leader = player ∨
      ∃ g' party', g.findLeader p party player = (false, g') ∧ Consistent g' ∧
        g'.parties p = some party' ∧ party'.leader ≠ player ∧ g'.party player = some p ∧
        Fades g g' := by
  unfold findLeader
  by_cases hleader : party.leader = player
  · rw [if_pos hleader]
    cases hmembers : party.memberList with
    | nil => exact Or.inl ⟨rfl, hleader⟩
    | cons front rest =>
      dsimp only
      split
      case isTrue => exact Or.inl ⟨rfl, hleader⟩
      case isFalse =>
        have hnodup := h.players_nodup hp
        rw [Party.players, hmembers, List.nodup_cons] at hnodup
        have hne : party.leader ≠ front := by
          rintro rfl
          exact hnodup.1 List.mem_cons_self
        have hfront : g.party front = some p :=
          (h.party_iff hp).mpr (by simp [Party.players, hmembers])
        have heq := passPartyLeadership_eq hp hne hfront
        refine Or.inr ⟨_, party.passTo front, rfl, h.passPartyLeadership p front, ?_, ?_, ?_, ?_⟩
        · rw [heq]
          exact Function.update_self _ _ _
        · rw [← hleader]
          exact hne.symm
        · rwa [heq]
        · rw [heq]
          exact ⟨rfl, fun _ h => h, fun _ h => h⟩
  · rw [if_neg hleader]
    exact Or.inr ⟨g, party, rfl, h, hp, hleader, hplayer, rfl, fun _ h => h, fun _ h => h⟩

theorem Consistent.leaveParty (h : Consistent g) (hplayer : g.party player = some p) :
    Consistent (g.leaveParty p player) ∧ (g.leaveParty p player).party player = none ∧
      Fades g (g.leaveParty p player) := by
  obtain ⟨party, hp⟩ := Option.isSome_iff_exists.mp (h.party_exists hplayer)
  unfold Game.leaveParty
  rw [hp]
  dsimp only
  rw [if_neg (by simp [hplayer])]
  rcases findLeader_cases h hp hplayer with
    ⟨hfind, hleader⟩ | ⟨g', party', hfind, h', hp', hne, hplayer', hfades⟩
  · rw [hfind]
    dsimp only
    rw [Bool.true_or, if_pos rfl, disband_without h.toLinked hp hleader]
    refine ⟨h.dissolved p, ?_, dissolved_fades g p⟩
    simp [Game.dissolved, hplayer]
  · rw [hfind]
    dsimp only
    rw [Bool.false_or]
    have hlinked := h'.toLinked.without hp' hne hplayer'
    have hsettle := settle_fades hlinked p
    refine ⟨hlinked.settle ?_, ?_, ?_⟩
    · rintro q party'' hqp hq
      rw [modifyParty_eq hp'] at hq
      exact h'.accompanied ((Function.update_of_ne hqp _ _).symm.trans hq)
    · exact hsettle.party player (by simp [setParty])
    · refine hfades.trans (Fades.trans ?_ hsettle)
      rw [modifyParty_eq hp']
      refine ⟨rfl, fun i hi => ?_, fun _ h => h⟩
      by_cases hip : i = player <;> simp [setParty, hip, hi]

theorem Consistent.joinParty (h : Consistent g) (p : π) (hplayer : g.party player = none) :
    Consistent (g.joinParty p player) := by
  cases hp : g.parties p with
  | none => simpa only [Game.joinParty, hp] using h
  | some party =>
    by_cases hmem : player ∈ party.inviteList
    · simp only [Game.joinParty, hp, if_pos hmem]
      refine ⟨h.toLinked.joined hp hmem hplayer, ?_⟩
      rintro q party' hq
      rw [modifyParty_eq hp] at hq
      by_cases hqp : q = p
      · obtain rfl : party.joined player = party' := by
          simpa [hqp, removePartyInvitation, setParty] using hq
        simp [Party.empty, Party.joined]
      · exact h.accompanied ((Function.update_of_ne hqp _ _).symm.trans hq)
    · simpa only [Game.joinParty, hp, if_neg hmem] using h

theorem Consistent.removeInvite (h : Consistent g) (p : π) (player : ι) :
    Consistent (g.removeInvite p player true) := by
  cases hp : g.parties p with
  | none => simpa only [Game.removeInvite, hp] using h
  | some party =>
    by_cases hmem : player ∈ party.inviteList
    · simp only [Game.removeInvite, hp, if_pos hmem]
      refine (h.toLinked.uninvited hp hmem).settle ?_
      rintro q party' hqp hq
      rw [modifyParty_eq hp] at hq
      exact h.accompanied ((Function.update_of_ne hqp _ _).symm.trans hq)
    · simpa only [Game.removeInvite, hp, if_neg hmem] using h

/-- The party may be a new one, which is not yet accompanied. -/
theorem Linked.invitePlayer (h : Linked g)
    (hothers : ∀ {q party}, q ≠ p → g.parties q = some party → !party.empty)
    (hp : g.parties p = some party) (hnew : player ∈ party.inviteList → !party.empty)
    (honline : g.online player) : Consistent (g.invitePlayer p player) := by
  by_cases hmem : player ∈ party.inviteList
  · simp only [Game.invitePlayer, hp, if_pos hmem]
    refine ⟨h, fun {q party'} hq => ?_⟩
    by_cases hqp : q = p
    · subst hqp
      obtain rfl : party = party' := Option.some.inj (hp.symm.trans hq)
      exact hnew hmem
    · exact hothers hqp hq
  · simp only [Game.invitePlayer, hp, if_neg hmem]
    refine ⟨h.invited hp hmem honline, fun {q party'} hq => ?_⟩
    have hnot : p ∉ g.invitePartyList player := by rwa [h.invited_iff hp]
    rw [modifyParty_eq hp, addPartyInvitation, if_neg hnot] at hq
    by_cases hqp : q = p
    · obtain rfl : party.invited player = party' := by simpa [hqp] using hq
      simp [Party.empty, Party.invited]
    · exact hothers hqp ((Function.update_of_ne hqp _ _).symm.trans hq)

end Operations

/-! ## A player logs out -/

section Logout

/-- The invitations of a player are forgotten on his side. -/
def forget (g : Game ι π) (player : ι) : Game ι π :=
  { g with invitePartyList := Function.update g.invitePartyList player [] }

theorem forget_disband (g : Game ι π) (p : π) (player : ι) :
    (g.disband p).forget player = (g.forget player).disband p := by
  cases hp : g.parties p with
  | none => simp only [disband, forget, hp]
  | some party =>
    rw [disband_eq hp, disband_eq (g := g.forget player) hp]
    ext1
    case invitePartyList =>
      ext1 i
      by_cases hi : i = player <;> simp [forget, hi]
    all_goals rfl

theorem forget_removePartyInvitation (g : Game ι π) (p : π) (player : ι) :
    (g.removePartyInvitation player p).forget player = g.forget player := by
  ext1
  case invitePartyList => exact Function.update_idem _ _ _
  all_goals rfl

theorem forget_settle (g : Game ι π) (p : π) (player : ι) :
    (if g.isEmpty p then g.disband p else g).forget player =
      if (g.forget player).isEmpty p then (g.forget player).disband p else g.forget player := by
  rw [show (g.forget player).isEmpty p = g.isEmpty p from rfl]
  split
  · exact forget_disband g p player
  · rfl

/-- Whether the player's own list is kept up to date makes no difference to the others. -/
theorem forget_removeInvite (g : Game ι π) (p : π) (player : ι) (removeFromPlayer : Bool) :
    (g.removeInvite p player removeFromPlayer).forget player =
      (g.forget player).removeInvite p player false := by
  cases hp : g.parties p with
  | none => simp only [removeInvite, forget, hp]
  | some party =>
    by_cases hmem : player ∈ party.inviteList
    · have hp' : (g.forget player).parties p = some party := hp
      have hmodify : (g.modifyParty p fun party => party.uninvited player).forget player =
          (g.forget player).modifyParty p fun party => party.uninvited player := rfl
      simp only [removeInvite, hp, hp', if_pos hmem]
      cases removeFromPlayer with
      | false => rw [if_neg Bool.false_ne_true, if_neg Bool.false_ne_true, forget_settle, hmodify]
      | true =>
        rw [if_pos rfl, if_neg Bool.false_ne_true, forget_settle, forget_removePartyInvitation,
          hmodify]
    · simp only [removeInvite, forget, hp, if_neg hmem]

theorem forget_foldl (l : List π) (g : Game ι π) (player : ι) (removeFromPlayer : Bool) :
    (l.foldl (fun g p => g.removeInvite p player removeFromPlayer) g).forget player =
      l.foldl (fun g p => g.removeInvite p player false) (g.forget player) := by
  induction l generalizing g with
  | nil => rfl
  | cons p l ih => rw [List.foldl_cons, List.foldl_cons, ih, forget_removeInvite]

theorem removeInvite_invited (h : Linked g) (p : π) (player : ι) :
    q ∈ (g.removeInvite p player true).invitePartyList player →
      q ≠ p ∧ q ∈ g.invitePartyList player := by
  rintro hq
  cases hp : g.parties p with
  | none =>
    simp only [removeInvite, hp] at hq
    refine ⟨?_, hq⟩
    rintro rfl
    simpa [hp] using h.inviting_exists hq
  | some party =>
    by_cases hmem : player ∈ party.inviteList
    · simp only [removeInvite, hp, if_pos hmem, if_true] at hq
      have hlinked := h.uninvited hp hmem
      have hq' : q ∈ ((g.modifyParty p fun party => party.uninvited player).removePartyInvitation
          player p).invitePartyList player := by
        split at hq
        case isTrue =>
          have hself : ((g.modifyParty p fun party => party.uninvited player).removePartyInvitation
              player p).parties p = some (party.uninvited player) := by
            rw [modifyParty_eq hp]
            exact Function.update_self _ _ _
          rw [hlinked.disband_eq_dissolved hself] at hq
          exact List.mem_of_mem_filter hq
        case isFalse => exact hq
      simpa [removePartyInvitation, modifyParty, and_comm] using hq'
    · simp only [removeInvite, hp, if_neg hmem] at hq
      refine ⟨?_, hq⟩
      rintro rfl
      exact hmem ((h.invited_iff hp).mp hq)

theorem Consistent.foldl_removeInvite (h : Consistent g) (l : List π)
    (hl : ∀ q ∈ g.invitePartyList player, q ∈ l) :
    Consistent (l.foldl (fun g p => g.removeInvite p player true) g) ∧
      (l.foldl (fun g p => g.removeInvite p player true) g).invitePartyList player = [] := by
  induction l generalizing g with
  | nil => exact ⟨h, List.eq_nil_iff_forall_not_mem.mpr fun q hq => List.not_mem_nil (hl q hq)⟩
  | cons p l ih =>
    refine ih (h.removeInvite p player) fun q hq => ?_
    obtain ⟨hne, hq⟩ := removeInvite_invited h.toLinked p player hq
    exact (List.mem_cons.mp (hl q hq)).resolve_left hne

theorem clearPartyInvitations_eq (h : Consistent g) (player : ι) :
    g.clearPartyInvitations player =
      (g.invitePartyList player).foldl (fun g p => g.removeInvite p player true) g := by
  have hnil := (h.foldl_removeInvite (g.invitePartyList player) fun q hq => hq).2
  calc g.clearPartyInvitations player
      = ((g.invitePartyList player).foldl (fun g p => g.removeInvite p player false) g).forget
          player := rfl
    _ = ((g.invitePartyList player).foldl (fun g p => g.removeInvite p player true) g).forget
          player := by rw [forget_foldl, forget_foldl]
    _ = (g.invitePartyList player).foldl (fun g p => g.removeInvite p player true) g := by
          rw [forget, ← hnil, Function.update_eq_self]

theorem Consistent.clearPartyInvitations (h : Consistent g) (player : ι) :
    Consistent (g.clearPartyInvitations player) ∧
      (g.clearPartyInvitations player).invitePartyList player = [] := by
  rw [clearPartyInvitations_eq h]
  exact h.foldl_removeInvite _ fun _ hq => hq

omit [DecidableEq π] in
theorem Consistent.removed (h : Consistent g) (hparty : g.party player = none)
    (hinvited : g.invitePartyList player = []) :
    Consistent { g with online := Function.update g.online player false } :=
  ⟨{ h.toLinked with
      offline := fun {i} hi => by
        by_cases hip : i = player
        · subst hip
          exact ⟨hparty, hinvited⟩
        · exact h.toLinked.offline ((Function.update_of_ne hip _ _).symm.trans hi) },
    h.accompanied⟩

theorem Consistent.logout (h : Consistent g) (player : ι) : Consistent (g.logout player) := by
  unfold Game.logout
  split
  case isTrue => exact h
  case isFalse =>
    obtain ⟨h', hnil⟩ := h.clearPartyInvitations player
    dsimp only
    cases hparty : (g.clearPartyInvitations player).party player with
    | none => exact h'.removed hparty hnil
    | some p =>
      obtain ⟨hleft, hnone, hfades⟩ := h'.leaveParty hparty
      exact hleft.removed hnone (hfades.invited player hnil)

omit [DecidableEq π] in
theorem Consistent.login (h : Consistent g) (player : ι) : Consistent (g.login player) := by
  unfold Game.login
  split
  case isTrue => exact h
  case isFalse hoff =>
    obtain ⟨hnone, hnil⟩ := h.toLinked.offline (eq_false_of_ne_true hoff)
    rw [← hnone, ← hnil, Function.update_eq_self, Function.update_eq_self]
    refine ⟨{ h.toLinked with offline := fun {i} hi => ?_ }, h.accompanied⟩
    by_cases hip : i = player
    · simp [hip] at hi
    · exact h.toLinked.offline ((Function.update_of_ne hip _ _).symm.trans hi)

end Logout

/-! ## Requests and runs -/

theorem Consistent.playerInviteToParty (h : Consistent g) (playerId invitedId : ι) (new : π)
    (hnew : g.parties new = none) : Consistent (g.playerInviteToParty playerId invitedId new) := by
  unfold Game.playerInviteToParty
  split_ifs with hself hoff hbusy
  · exact h
  · exact h
  · exact h
  simp only [Bool.or_eq_true, Bool.not_eq_true', not_or, Bool.not_eq_false] at hoff
  obtain ⟨⟨honline, hinvited⟩, -⟩ := hoff
  cases hplayer : g.party playerId with
  | none =>
    have hself : Function.update g.parties new (some { leader := playerId }) new =
        some { leader := playerId } := Function.update_self _ _ _
    refine (h.toLinked.created hnew hplayer honline).invitePlayer (p := new) ?_ hself ?_ hinvited
    · rintro q party hq hparty
      exact h.accompanied ((Function.update_of_ne hq _ _).symm.trans hparty)
    · rintro ⟨⟩
  | some p =>
    obtain ⟨party, hp⟩ := Option.isSome_iff_exists.mp (h.party_exists hplayer)
    dsimp only
    split
    case isTrue =>
      exact h.toLinked.invitePlayer (fun _ hq => h.accompanied hq) hp
        (fun _ => h.accompanied hp) hinvited
    case isFalse => exact h

theorem Consistent.playerJoinParty (h : Consistent g) (playerId leaderId : ι) :
    Consistent (g.playerJoinParty playerId leaderId) := by
  unfold Game.playerJoinParty
  split
  case isTrue => exact h
  case isFalse =>
    split
    case h_1 => exact h
    case h_2 p hp =>
      split_ifs with hleads hbusy
      · exact h
      · exact h
      · exact h.joinParty p (by simpa using hbusy)

theorem Consistent.playerRevokePartyInvitation (h : Consistent g) (playerId invitedId : ι) :
    Consistent (g.playerRevokePartyInvitation playerId invitedId) := by
  unfold Game.playerRevokePartyInvitation
  split
  case isTrue => exact h
  case isFalse =>
    split
    case h_1 => exact h
    case h_2 p hp =>
      split_ifs
      · exact h
      · exact h
      · exact h.removeInvite p invitedId

theorem Consistent.playerPassPartyLeadership (h : Consistent g) (playerId newLeaderId : ι) :
    Consistent (g.playerPassPartyLeadership playerId newLeaderId) := by
  unfold Game.playerPassPartyLeadership
  split
  case isTrue => exact h
  case isFalse =>
    split
    case h_1 => exact h
    case h_2 p hp =>
      split_ifs
      · exact h
      · exact h
      · exact h.passPartyLeadership p newLeaderId

theorem Consistent.playerLeaveParty (h : Consistent g) (playerId : ι) (inFight : Bool) :
    Consistent (g.playerLeaveParty playerId inFight) := by
  unfold Game.playerLeaveParty
  split
  case isTrue => exact h
  case isFalse =>
    split
    case h_1 => exact h
    case h_2 p hp =>
      split_ifs
      · exact h
      · exact (h.leaveParty hp).1

theorem step_consistent (h : Consistent g) (action : Action ι π) (hfresh : g.Fresh action) :
    Consistent (g.step action) := by
  cases action with
  | invite playerId invitedId new => exact h.playerInviteToParty playerId invitedId new hfresh
  | join playerId leaderId => exact h.playerJoinParty playerId leaderId
  | revoke playerId invitedId => exact h.playerRevokePartyInvitation playerId invitedId
  | passLeadership playerId newLeaderId => exact h.playerPassPartyLeadership playerId newLeaderId
  | leave playerId inFight => exact h.playerLeaveParty playerId inFight
  | login playerId => exact h.login playerId
  | logout playerId => exact h.logout playerId

omit [DecidableEq ι] [DecidableEq π] in
theorem init_consistent : Consistent ({} : Game ι π) := by
  constructor
  · constructor <;> simp
  · rintro p party ⟨⟩

omit [DecidableEq ι] [DecidableEq π] in
/-- No player is in two parties, or twice in one. -/
theorem Linked.eq_of_mem_players {party' : Party ι} (h : Linked g) (hp : g.parties p = some party)
    (hq : g.parties q = some party') (hi : i ∈ party.players) (hi' : i ∈ party'.players) :
    p = q :=
  Option.some.inj (((h.party_iff hp).mpr hi).symm.trans ((h.party_iff hq).mpr hi'))

/-- In every state that a run reaches, both sides of every reference agree, no party is without
company, and no player is in two parties. -/
theorem parties_consistent {actions : List (Action ι π)}
    (hfresh : Run.Steps step Fresh {} actions) :
    Consistent (actions.foldl step {}) ∧
      ∀ {p q : π} {party party' : Party ι} {i : ι},
        (actions.foldl step {}).parties p = some party →
        (actions.foldl step {}).parties q = some party' →
        i ∈ party.players → i ∈ party'.players → p = q := by
  have h : Consistent (actions.foldl step {}) :=
    Run.invariant (P := Consistent) (fun _ action h hok => step_consistent h action hok)
      init_consistent hfresh
  exact ⟨h, fun hp hq hi hi' => h.toLinked.eq_of_mem_players hp hq hi hi'⟩

/-- A leader with one member and one invitee logs out, and the invitee joins the other two. -/
def leaderLeaves : List (Action ℕ ℕ) :=
  [.login 0, .login 1, .login 2, .login 3, .invite 0 1 7, .join 1 0, .invite 0 2 8, .invite 3 2 8,
    .logout 0, .join 2 1]

theorem parties_consistent_leaderLeaves :
    Run.Steps step Fresh {} leaderLeaves ∧ Consistent (leaderLeaves.foldl step {}) ∧
      (leaderLeaves.foldl step {}).party 2 = some 7 := by
  have hfresh : Run.Steps step Fresh {} leaderLeaves := by decide
  exact ⟨hfresh, (parties_consistent hfresh).1, by decide⟩

end OTServBR.Parties.Game
