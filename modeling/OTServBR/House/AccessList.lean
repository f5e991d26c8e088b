import Mathlib
import OTServBR.Item.Attributes
import OTServBR.Lib.Trim

/-! # Access lists of houses

The owner of a house writes a text: on each line a name, a guild or a rank of a
guild. The list that is read from it lets in the players and the ranks that the
lines name.
-/

namespace OTServBR.House

open Trim

structure GuildRank where
  id : ℕ
  name : Str

structure Guild where
  ranks : List GuildRank

def Guild.getRankByName (guild : Guild) (guildName : Str) : Option GuildRank :=
  guild.ranks.find? (·.name == guildName)

/-- The players and the guilds by their names, in the game and in the database. -/
structure Lookup where
  getPlayerByName : Str → Option ℕ
  getGuidByName : Str → ℕ
  getGuildIdByName : Str → ℕ
  getGuild : ℕ → Option Guild
  loadGuild : ℕ → Option Guild

def Lookup.getGuildByName (g : Lookup) (name : Str) : Option Guild :=
  let guildId := g.getGuildIdByName name
  if guildId = 0 then none
  else
    match g.getGuild guildId with
    | some guild => some guild
    | none => g.loadGuild guildId

/-! ### The text -/

/-- `find`, `push_back` and `substr` until the limit is used up. -/
def explodeString (separator : UInt8) : ℕ → Str → List Str
  | 0, inString => [inString]
  | limit + 1, inString =>
    if separator ∈ inString then
      inString.takeWhile (· != separator) ::
        explodeString separator limit ((inString.dropWhile (· != separator)).drop 1)
    else [inString]

def trim_right (t : UInt8) (source : Str) : Str := source.rdropWhile (· == t)

def trim_left (t : UInt8) (source : Str) : Str := source.dropWhile (· == t)

def trimString (str : Str) : Str := trim_left 32 (trim_right 32 str)

def NETWORKMESSAGE_PLAYERNAME_MAXLENGTH : ℕ := 30

structure AccessList where
  list : Str := []
  playerList : Finset ℕ := ∅
  guildRankList : Finset ℕ := ∅

namespace AccessList

variable (g : Lookup) (access : AccessList)

def addPlayer (name : Str) : AccessList :=
  match g.getPlayerByName name with
  | some guid => { access with playerList := insert guid access.playerList }
  | none =>
    let guid := g.getGuidByName name
    if guid ≠ 0 then { access with playerList := insert guid access.playerList } else access

def addGuild (name : Str) : AccessList :=
  match g.getGuildByName name with
  | some guild =>
    { access with
      guildRankList := guild.ranks.foldl (fun ids rank => insert rank.id ids)
        access.guildRankList }
  | none => access

def addGuildRank (name guildName : Str) : AccessList :=
  match g.getGuildByName guildName with
  | some guild =>
    match guild.getRankByName name with
    | some rank => { access with guildRankList := insert rank.id access.guildRankList }
    | none => access
  | none => access

/-- The four trims of a line. -/
def trimLine (line : Str) : Str := trimString (trim_right 9 (trim_left 9 (trimString line)))

/-- The body of the loop. The characters are '#', '@' and '!', '*', '?'. -/
def parseLine (line : Str) : AccessList :=
  let line := trimLine line
  if line = [] ∨ line.head? = some 35 ∨ line.length > 100 then access
  else
    let line := asLowerCaseString line
    if 64 ∈ line then
      let at_pos := line.idxOf 64
      if at_pos = 0 then access.addGuild g (line.drop 1)
      else access.addGuildRank g (line.take (at_pos - 1)) (line.drop (at_pos + 1))
    else if ∃ c ∈ line, c ∈ [33, 42, 63] then access
    else if line.length ≤ NETWORKMESSAGE_PLAYERNAME_MAXLENGTH then access.addPlayer g line
    else access

/-- Nothing of the list before is kept. -/
def parseList (list : Str) : AccessList :=
  let access := { list }
  if list = [] then access else (explodeString 10 100 list).foldl (parseLine g) access

end AccessList

/-! ### The grammar -/

/-- What a line may ask for. -/
inductive Entry
  | name (name : Str)
  | guild (guild : Str)
  | rank (name guild : Str)
  deriving DecidableEq

/-- The player of a name. -/
def Lookup.player (g : Lookup) (name : Str) : Option ℕ :=
  match g.getPlayerByName name with
  | some guid => some guid
  | none => if g.getGuidByName name ≠ 0 then some (g.getGuidByName name) else none

inductive Lookup.GrantsPlayer (g : Lookup) : Entry → ℕ → Prop
  | name {n id} (h : g.player n = some id) : GrantsPlayer g (.name n) id

inductive Lookup.GrantsRank (g : Lookup) : Entry → ℕ → Prop
  | guild {n guild rank} (hguild : g.getGuildByName n = some guild) (hrank : rank ∈ guild.ranks) :
    GrantsRank g (.guild n) rank.id
  | rank {r n guild rank} (hguild : g.getGuildByName n = some guild)
    (hrank : guild.getRankByName r = some rank) : GrantsRank g (.rank r n) rank.id

/-- How a line is read. -/
inductive Reads : Str → Entry → Prop
  | name {n : Str} (hat : 64 ∉ n) (hstar : ∀ c ∈ n, c ∉ [33, 42, 63]) : Reads n (.name n)
  | guild (n : Str) : Reads (64 :: n) (.guild n)
  | rank {r : Str} (n : Str) (hat : 64 ∉ r) (hr : r ≠ []) : Reads (r ++ 64 :: n) (.rank r n)

/-- A line that is not empty, no remark and not too long. -/
structure Counts (line : Str) : Prop where
  nonempty : line ≠ []
  remark : line.head? ≠ some 35
  length : line.length ≤ 100

/-- A blank or a tab. -/
def isBlank (c : UInt8) : Bool := c == 32 || c == 9

/-- What a line denotes: trimmed of blanks and tabs, and in lower case. -/
def Denotes (line : Str) (e : Entry) : Prop :=
  Counts (asLowerCaseString (trim isBlank line)) ∧ Reads (asLowerCaseString (trim isBlank line)) e

/-- The first 100 lines, and as a last one what is left of the text. -/
def lines (text : Str) : List Str :=
  let pieces := text.splitOn 10
  if pieces.length ≤ 100 then pieces
  else pieces.take 100 ++ [[10].intercalate (pieces.drop 100)]

/-- Whatever the names stand for, the list grants what the lines denote and nothing else. -/
def Follows (text : Str) : Prop :=
  ∀ g : Lookup,
    (∀ id, id ∈ (AccessList.parseList g text).playerList ↔
      ∃ line ∈ lines text, ∃ e, Denotes line e ∧ g.GrantsPlayer e id) ∧
    ∀ id, id ∈ (AccessList.parseList g text).guildRankList ↔
      ∃ line ∈ lines text, ∃ e, Denotes line e ∧ g.GrantsRank e id

/-! ### The lines -/

theorem splitOn_of_mem {separator : UInt8} {inString : Str} (h : separator ∈ inString) :
    inString.splitOn separator = inString.takeWhile (· != separator) ::
      ((inString.dropWhile (· != separator)).drop 1).splitOn separator := by
  obtain ⟨first, rest, rfl, hfirst⟩ := List.eq_append_cons_of_mem h
  have hkeep : ∀ c ∈ first, (c != separator) = true := by
    rintro c hc
    exact bne_iff_ne.mpr fun heq => hfirst (heq ▸ hc)
  rw [List.splitOn_append_cons_self_of_not_mem hfirst, List.takeWhile_append_of_pos hkeep,
    List.dropWhile_append_of_pos hkeep]
  simp

theorem explodeString_eq (separator : UInt8) (limit : ℕ) (inString : Str) :
    explodeString separator limit inString =
      if (inString.splitOn separator).length ≤ limit then inString.splitOn separator
      else (inString.splitOn separator).take limit ++
        [[separator].intercalate ((inString.splitOn separator).drop limit)] := by
  induction limit generalizing inString with
  | zero =>
    have hne := List.splitOn_ne_nil separator inString
    rw [if_neg (by simp), List.take_zero, List.drop_zero, List.intercalate_splitOn]
    rfl
  | succ limit ih =>
    rw [explodeString]
    by_cases hmem : separator ∈ inString
    · rw [if_pos hmem, ih, splitOn_of_mem hmem, List.length_cons, List.take_succ_cons,
        List.drop_succ_cons]
      simp only [Nat.add_le_add_iff_right]
      split_ifs <;> rfl
    · rw [if_neg hmem, List.splitOn_eq_singleton hmem]
      simp

theorem explodeString_lines (text : Str) : explodeString 10 100 text = lines text :=
  explodeString_eq 10 100 text

/-! ### What the code asks for -/

/-- How the code reads a line that counts. -/
inductive Asks : Str → Entry → Prop
  | name {n : Str} (hat : 64 ∉ n) (hstar : ∀ c ∈ n, c ∉ [33, 42, 63])
    (hlength : n.length ≤ NETWORKMESSAGE_PLAYERNAME_MAXLENGTH) : Asks n (.name n)
  | guild (n : Str) : Asks (64 :: n) (.guild n)
  | rank {r : Str} (n : Str) (hat : 64 ∉ r) (hr : r ≠ []) : Asks (r ++ 64 :: n) (.rank r.dropLast n)

/-- What the code looks up for a line. -/
def AskedBy (line : Str) (e : Entry) : Prop :=
  Counts (asLowerCaseString (AccessList.trimLine line)) ∧
    Asks (asLowerCaseString (AccessList.trimLine line)) e

/-- The lower case of a character. -/
def lower (c : UInt8) : UInt8 := if 65 ≤ c && c ≤ 90 then c + 32 else c

theorem asLowerCaseString_eq (line : Str) : asLowerCaseString line = line.map lower := rfl

theorem lower_eq_iff {c d : UInt8} (hd : d < 65) : lower c = d ↔ c = d := by
  unfold lower
  split_ifs with hc
  · simp only [Bool.and_eq_true, decide_eq_true_eq, UInt8.le_iff_toNat_le,
      UInt8.reduceToNat] at hc
    simp only [UInt8.lt_iff_toNat_lt, UInt8.reduceToNat] at hd
    simp only [← UInt8.toNat_inj, UInt8.toNat_add, UInt8.reduceToNat]
    omega
  · rfl

theorem isBlank_lower (c : UInt8) : isBlank (lower c) = isBlank c := by
  have hbeq : ∀ d : UInt8, d < 65 → (lower c == d) = (c == d) := by
    intro d hd
    rw [Bool.eq_iff_iff, beq_iff_eq, beq_iff_eq]
    exact lower_eq_iff hd
  rw [isBlank, hbeq 32 (by decide), hbeq 9 (by decide), isBlank]

theorem counts_asLowerCaseString {line : Str} :
    Counts (asLowerCaseString line) ↔ Counts line := by
  have hnil : asLowerCaseString line ≠ [] ↔ line ≠ [] := by
    rw [asLowerCaseString_eq, ne_eq, List.map_eq_nil_iff]
  have hhead : (asLowerCaseString line).head? ≠ some 35 ↔ line.head? ≠ some 35 := by
    cases line with
    | nil => rfl
    | cons c line =>
      rw [asLowerCaseString_eq, List.map_cons, List.head?_cons, List.head?_cons, ne_eq,
        Option.some_inj, lower_eq_iff (by decide), ne_eq, Option.some_inj]
  have hlength : (asLowerCaseString line).length = line.length := by
    rw [asLowerCaseString_eq, List.length_map]
  constructor
  · intro h
    exact ⟨hnil.mp h.nonempty, hhead.mp h.remark, hlength ▸ h.length⟩
  · intro h
    exact ⟨hnil.mpr h.nonempty, hhead.mpr h.remark, hlength.symm ▸ h.length⟩

namespace AccessList

variable {g : Lookup} {access : AccessList} {line : Str} {e : Entry} {id : ℕ}

def grant (g : Lookup) (access : AccessList) : Entry → AccessList
  | .name n => access.addPlayer g n
  | .guild n => access.addGuild g n
  | .rank r n => access.addGuildRank g r n

theorem not_counts_iff : ¬Counts line ↔ line = [] ∨ line.head? = some 35 ∨ line.length > 100 := by
  constructor
  · intro h
    by_contra hnot
    simp only [not_or, not_lt, gt_iff_lt] at hnot
    exact h ⟨hnot.1, hnot.2.1, hnot.2.2⟩
  · rintro (h | h | h) hcounts
    · exact hcounts.nonempty h
    · exact hcounts.remark h
    · exact absurd hcounts.length (Nat.not_le.mpr h)

theorem parseLine_of_askedBy (h : AskedBy line e) :
    access.parseLine g line = access.grant g e := by
  obtain ⟨hcounts, hasks⟩ := h
  have hskip := not_counts_iff.not.mp (not_not.mpr (counts_asLowerCaseString.mp hcounts))
  rw [parseLine]
  dsimp only
  rw [if_neg hskip]
  generalize asLowerCaseString (trimLine line) = low at hasks
  cases hasks with
  | name hat hstar hlength =>
    have hplain : ¬∃ c ∈ low, c ∈ [33, 42, 63] := fun ⟨c, hc, h⟩ => hstar c hc h
    rw [if_neg hat, if_neg hplain, if_pos hlength]
    rfl
  | guild n =>
    rw [if_pos List.mem_cons_self, List.idxOf_cons_self, if_pos rfl]
    rfl
  | @rank r n hat hr =>
    have hidx : (r ++ 64 :: n).idxOf 64 = r.length := by
      rw [List.idxOf_append_of_notMem hat, List.idxOf_cons_self, Nat.add_zero]
    have hpos : r.length ≠ 0 := fun h => hr (List.length_eq_zero_iff.mp h)
    have hname : (r ++ 64 :: n).take (r.length - 1) = r.dropLast := by
      rw [List.take_append_of_le_length (Nat.sub_le _ _), List.dropLast_eq_take]
    have hguild : (r ++ 64 :: n).drop (r.length + 1) = n := by simp
    rw [if_pos (by simp), hidx, if_neg hpos, hname, hguild]
    rfl

theorem parseLine_of_not_askedBy (h : ∀ e, ¬AskedBy line e) :
    access.parseLine g line = access := by
  rw [parseLine]
  dsimp only
  by_cases hskip : trimLine line = [] ∨ (trimLine line).head? = some 35 ∨
      (trimLine line).length > 100
  · rw [if_pos hskip]
  rw [if_neg hskip]
  have hcounts := counts_asLowerCaseString.mpr (not_not.mp (not_counts_iff.not.mpr hskip))
  have hasks : ∀ e, ¬Asks (asLowerCaseString (trimLine line)) e := fun e he => h e ⟨hcounts, he⟩
  generalize asLowerCaseString (trimLine line) = low at hasks
  by_cases hat : 64 ∈ low
  · obtain ⟨r, n, rfl, hr⟩ := List.eq_append_cons_of_mem hat
    obtain rfl | hne := eq_or_ne r []
    · exact absurd (.guild n) (hasks _)
    · exact absurd (.rank n hr hne) (hasks _)
  rw [if_neg hat]
  by_cases hstar : ∃ c ∈ low, c ∈ [33, 42, 63]
  · rw [if_pos hstar]
  rw [if_neg hstar]
  by_cases hlength : low.length ≤ NETWORKMESSAGE_PLAYERNAME_MAXLENGTH
  · have hplain : ∀ c ∈ low, c ∉ [33, 42, 63] := fun c hc h => hstar ⟨c, hc, h⟩
    exact absurd (.name hat hplain hlength) (hasks _)
  · rw [if_neg hlength]

theorem mem_playerList_addPlayer {n : Str} : id ∈ (access.addPlayer g n).playerList ↔
    id ∈ access.playerList ∨ g.player n = some id := by
  unfold addPlayer Lookup.player
  cases g.getPlayerByName n with
  | some guid => simp [or_comm, eq_comm]
  | none =>
    dsimp only
    split_ifs
    · simp [or_comm, eq_comm]
    · simp

theorem guildRankList_addPlayer {n : Str} :
    (access.addPlayer g n).guildRankList = access.guildRankList := by
  unfold addPlayer
  cases g.getPlayerByName n with
  | some guid => rfl
  | none =>
    dsimp only
    split_ifs <;> rfl

theorem mem_insertRanks {ranks : List GuildRank} {ids : Finset ℕ} :
    id ∈ ranks.foldl (fun ids rank => insert rank.id ids) ids ↔
      id ∈ ids ∨ ∃ rank ∈ ranks, rank.id = id := by
  induction ranks generalizing ids with
  | nil => simp
  | cons rank ranks ih =>
    rw [List.foldl_cons, ih, Finset.mem_insert, List.exists_mem_cons_iff, or_assoc,
      or_left_comm, eq_comm]

theorem playerList_addGuild {n : Str} :
    (access.addGuild g n).playerList = access.playerList := by
  unfold addGuild
  cases g.getGuildByName n <;> rfl

theorem playerList_addGuildRank {r n : Str} :
    (access.addGuildRank g r n).playerList = access.playerList := by
  unfold addGuildRank
  cases g.getGuildByName n with
  | none => rfl
  | some guild =>
    dsimp only
    cases guild.getRankByName r <;> rfl

theorem mem_guildRankList_addGuild {n : Str} : id ∈ (access.addGuild g n).guildRankList ↔
    id ∈ access.guildRankList ∨
      ∃ guild, g.getGuildByName n = some guild ∧ ∃ rank ∈ guild.ranks, rank.id = id := by
  unfold addGuild
  cases g.getGuildByName n with
  | none => simp
  | some guild => simpa using mem_insertRanks

theorem mem_guildRankList_addGuildRank {r n : Str} :
    id ∈ (access.addGuildRank g r n).guildRankList ↔ id ∈ access.guildRankList ∨
      ∃ guild, g.getGuildByName n = some guild ∧
        ∃ rank, guild.getRankByName r = some rank ∧ rank.id = id := by
  unfold addGuildRank
  cases g.getGuildByName n with
  | none => simp
  | some guild =>
    dsimp only
    cases hrank : guild.getRankByName r with
    | none => simp [hrank]
    | some rank => simp [hrank, or_comm, eq_comm]

theorem mem_playerList_grant : id ∈ (access.grant g e).playerList ↔
    id ∈ access.playerList ∨ g.GrantsPlayer e id := by
  cases e with
  | name n =>
    refine mem_playerList_addPlayer.trans (or_congr_right ⟨.name, ?_⟩)
    rintro ⟨h⟩
    exact h
  | guild n =>
    rw [grant, playerList_addGuild]
    exact ⟨.inl, fun h => h.resolve_right nofun⟩
  | rank r n =>
    rw [grant, playerList_addGuildRank]
    exact ⟨.inl, fun h => h.resolve_right nofun⟩

theorem mem_guildRankList_grant : id ∈ (access.grant g e).guildRankList ↔
    id ∈ access.guildRankList ∨ g.GrantsRank e id := by
  cases e with
  | name n =>
    rw [grant, guildRankList_addPlayer]
    exact ⟨.inl, fun h => h.resolve_right nofun⟩
  | guild n =>
    refine mem_guildRankList_addGuild.trans (or_congr_right ⟨?_, ?_⟩)
    · rintro ⟨guild, hguild, rank, hrank, rfl⟩
      exact .guild hguild hrank
    · rintro ⟨hguild, hrank⟩
      exact ⟨_, hguild, _, hrank, rfl⟩
  | rank r n =>
    refine mem_guildRankList_addGuildRank.trans (or_congr_right ⟨?_, ?_⟩)
    · rintro ⟨guild, hguild, rank, hrank, rfl⟩
      exact .rank hguild hrank
    · rintro (_ | ⟨hguild, hrank⟩)
      exact ⟨_, hguild, _, hrank, rfl⟩

/-- A line adds what the code looks up for it. -/
theorem mem_parseLine : (id ∈ (access.parseLine g line).playerList ↔
      id ∈ access.playerList ∨ ∃ e, AskedBy line e ∧ g.GrantsPlayer e id) ∧
    (id ∈ (access.parseLine g line).guildRankList ↔
      id ∈ access.guildRankList ∨ ∃ e, AskedBy line e ∧ g.GrantsRank e id) := by
  by_cases hasked : ∃ e, AskedBy line e
  · obtain ⟨e, he⟩ := hasked
    constructor
    · constructor
      · rw [parseLine_of_askedBy he, mem_playerList_grant]
        exact fun h => h.imp_right fun h => ⟨e, he, h⟩
      · rintro (h | ⟨e', he', h⟩)
        · rw [parseLine_of_askedBy he, mem_playerList_grant]
          exact .inl h
        · rw [parseLine_of_askedBy he', mem_playerList_grant]
          exact .inr h
    · constructor
      · rw [parseLine_of_askedBy he, mem_guildRankList_grant]
        exact fun h => h.imp_right fun h => ⟨e, he, h⟩
      · rintro (h | ⟨e', he', h⟩)
        · rw [parseLine_of_askedBy he, mem_guildRankList_grant]
          exact .inl h
        · rw [parseLine_of_askedBy he', mem_guildRankList_grant]
          exact .inr h
  · rw [parseLine_of_not_askedBy fun e he => hasked ⟨e, he⟩]
    constructor <;> exact ⟨.inl, fun h => h.resolve_right fun ⟨e, he, _⟩ => hasked ⟨e, he⟩⟩

theorem mem_foldl_parseLine {pieces : List Str} :
    (id ∈ (pieces.foldl (parseLine g) access).playerList ↔ id ∈ access.playerList ∨
      ∃ line ∈ pieces, ∃ e, AskedBy line e ∧ g.GrantsPlayer e id) ∧
    (id ∈ (pieces.foldl (parseLine g) access).guildRankList ↔ id ∈ access.guildRankList ∨
      ∃ line ∈ pieces, ∃ e, AskedBy line e ∧ g.GrantsRank e id) := by
  induction pieces generalizing access with
  | nil => simp
  | cons line pieces ih =>
    obtain ⟨hplayer, hrank⟩ := @ih (access.parseLine g line)
    constructor
    · rw [List.foldl_cons, hplayer, mem_parseLine.1, List.exists_mem_cons_iff, or_assoc]
    · rw [List.foldl_cons, hrank, mem_parseLine.2, List.exists_mem_cons_iff, or_assoc]

/-- The list of a text grants what the code looks up for its lines. -/
theorem mem_parseList (g : Lookup) (text : Str) (id : ℕ) :
    (id ∈ (parseList g text).playerList ↔
      ∃ line ∈ lines text, ∃ e, AskedBy line e ∧ g.GrantsPlayer e id) ∧
    (id ∈ (parseList g text).guildRankList ↔
      ∃ line ∈ lines text, ∃ e, AskedBy line e ∧ g.GrantsRank e id) := by
  rw [parseList]
  split_ifs with htext
  · subst htext
    have hlines : lines [] = [[]] := rfl
    have hnone : ∀ e, ¬AskedBy [] e := fun e h => h.1.nonempty rfl
    simp [hlines, hnone]
  · rw [explodeString_lines]
    constructor
    · rw [mem_foldl_parseLine.1]
      simp
    · rw [mem_foldl_parseLine.2]
      simp

end AccessList

/-! ### Where the code and the grammar agree -/

variable {text line d : Str} {e : Entry} {n r : Str} {g : Lookup} {id : ℕ}

def Asked (text : Str) (e : Entry) : Prop := ∃ line ∈ lines text, AskedBy line e

def Denoted (text : Str) (e : Entry) : Prop := ∃ line ∈ lines text, Denotes line e

/-- A line for which the code looks up what it denotes. -/
def Plain (text : Str) (e : Entry) : Prop := ∃ line ∈ lines text, AskedBy line e ∧ Denotes line e

/-- What a plain line grants. A rank is granted with its guild. -/
def Covered (text : Str) : Entry → Prop
  | .name n => Plain text (.name n)
  | .guild n => Plain text (.guild n)
  | .rank _ n => Plain text (.guild n)

theorem trim_trimLine (line : Str) :
    trim isBlank (AccessList.trimLine line) = trim isBlank line := by
  have hspace : ∀ c : UInt8, (c == 32) = true → isBlank c = true := by
    rintro c h
    rw [isBlank, h, Bool.true_or]
  have htab : ∀ c : UInt8, (c == 9) = true → isBlank c = true := by
    rintro c h
    rw [isBlank, h, Bool.or_true]
  unfold AccessList.trimLine trimString trim_left trim_right
  rw [trim_dropWhile hspace, trim_rdropWhile hspace, trim_rdropWhile htab, trim_dropWhile htab,
    trim_dropWhile hspace, trim_rdropWhile hspace]

/-- The text that a line denotes by is the trim of the one the code asks by. -/
theorem trim_asLowerCaseString (line : Str) :
    trim isBlank (asLowerCaseString (AccessList.trimLine line)) =
      asLowerCaseString (trim isBlank line) := by
  have hlower : isBlank ∘ lower = isBlank := funext isBlank_lower
  rw [asLowerCaseString_eq, asLowerCaseString_eq, trim_map, hlower, trim_trimLine]

theorem Denotes.bare (h : Denotes line e) : ∃ d, Counts d ∧ Reads d e ∧ Bare isBlank d := by
  refine ⟨_, h.1, h.2, ?_⟩
  rw [← trim_asLowerCaseString]
  exact bare_trim isBlank _

/-- A line that the code leaves without a blank at its ends denotes by the same text. -/
theorem AskedBy.denotes {e' : Entry} (h : AskedBy line e)
    (hbare : Bare isBlank (asLowerCaseString (AccessList.trimLine line)))
    (hreads : Reads (asLowerCaseString (AccessList.trimLine line)) e') : Denotes line e' := by
  rw [Denotes, ← trim_asLowerCaseString, hbare.trim_eq]
  exact ⟨h.1, hreads⟩

/-! ### Names that stand for one thing -/

/-- The only player. -/
def onlyPlayer (n : Str) : Lookup where
  getPlayerByName m := if m = n then some 0 else none
  getGuidByName _ := 0
  getGuildIdByName _ := 0
  getGuild _ := none
  loadGuild _ := none

/-- The only guild, with one rank. -/
def onlyRank (n r : Str) : Lookup where
  getPlayerByName _ := none
  getGuidByName _ := 0
  getGuildIdByName m := if m = n then 1 else 0
  getGuild _ := some ⟨[⟨0, r⟩]⟩
  loadGuild _ := none

theorem player_onlyPlayer {m : Str} :
    (onlyPlayer n).player m = if m = n then some 0 else none := by
  unfold onlyPlayer Lookup.player
  by_cases heq : m = n <;> simp [heq]

theorem getGuildByName_onlyRank {m : Str} : (onlyRank n r).getGuildByName m =
    if m = n then some ⟨[⟨0, r⟩]⟩ else none := by
  unfold onlyRank Lookup.getGuildByName
  by_cases heq : m = n <;> simp [heq]

theorem getRankByName_one {m : Str} : (⟨[⟨0, r⟩]⟩ : Guild).getRankByName m =
    if r = m then some ⟨0, r⟩ else none := by
  unfold Guild.getRankByName
  by_cases heq : r = m <;> simp [heq]

theorem eq_of_onlyPlayer (h : (onlyPlayer n).GrantsPlayer e id) : e = .name n := by
  obtain ⟨h⟩ := h
  rw [player_onlyPlayer] at h
  split_ifs at h with heq
  rw [heq]

theorem onlyPlayer_grants : (onlyPlayer n).GrantsPlayer (.name n) 0 :=
  .name (by rw [player_onlyPlayer, if_pos rfl])

theorem eq_of_onlyRank (h : (onlyRank n r).GrantsRank e id) : e = .guild n ∨ e = .rank r n := by
  cases h with
  | guild hguild =>
    rw [getGuildByName_onlyRank] at hguild
    split_ifs at hguild with heq
    exact .inl (by rw [heq])
  | rank hguild hrank =>
    rw [getGuildByName_onlyRank] at hguild
    split_ifs at hguild with heq
    rw [← Option.some_inj.mp hguild, getRankByName_one] at hrank
    split_ifs at hrank with hname
    exact .inr (by rw [heq, hname])

theorem onlyRank_grants : (onlyRank n r).GrantsRank (.guild n) 0 ∧
    (onlyRank n r).GrantsRank (.rank r n) 0 := by
  have hguild : (onlyRank n r).getGuildByName n = some ⟨[⟨0, r⟩]⟩ := by
    rw [getGuildByName_onlyRank, if_pos rfl]
  have hrank : (⟨[⟨0, r⟩]⟩ : Guild).getRankByName r = some ⟨0, r⟩ := by
    rw [getRankByName_one, if_pos rfl]
  exact ⟨.guild hguild List.mem_cons_self, .rank hguild hrank⟩

namespace Follows

theorem name (h : Follows text) : Asked text (.name n) ↔ Denoted text (.name n) := by
  have hlist := (AccessList.mem_parseList (onlyPlayer n) text 0).1.symm.trans ((h _).1 0)
  constructor
  · rintro ⟨line, hline, hasked⟩
    obtain ⟨line', hline', e, hdenotes, hgrants⟩ :=
      hlist.mp ⟨line, hline, _, hasked, onlyPlayer_grants⟩
    exact ⟨line', hline', eq_of_onlyPlayer hgrants ▸ hdenotes⟩
  · rintro ⟨line, hline, hdenotes⟩
    obtain ⟨line', hline', e, hasked, hgrants⟩ :=
      hlist.mpr ⟨line, hline, _, hdenotes, onlyPlayer_grants⟩
    exact ⟨line', hline', eq_of_onlyPlayer hgrants ▸ hasked⟩

/-- The one rank is granted with its guild or alone. -/
theorem guild_or_rank (h : Follows text) (r : Str) :
    Asked text (.guild n) ∨ Asked text (.rank r n) ↔
      Denoted text (.guild n) ∨ Denoted text (.rank r n) := by
  have hlist := (AccessList.mem_parseList (onlyRank n r) text 0).2.symm.trans ((h _).2 0)
  constructor
  · intro hasked
    have hgrants : ∃ line ∈ lines text, ∃ e, AskedBy line e ∧ (onlyRank n r).GrantsRank e 0 := by
      obtain ⟨line, hline, hasked⟩ | ⟨line, hline, hasked⟩ := hasked
      · exact ⟨line, hline, _, hasked, onlyRank_grants.1⟩
      · exact ⟨line, hline, _, hasked, onlyRank_grants.2⟩
    obtain ⟨line, hline, e, hdenotes, hgrants⟩ := hlist.mp hgrants
    obtain rfl | rfl := eq_of_onlyRank hgrants
    · exact .inl ⟨line, hline, hdenotes⟩
    · exact .inr ⟨line, hline, hdenotes⟩
  · intro hdenoted
    have hgrants : ∃ line ∈ lines text, ∃ e, Denotes line e ∧ (onlyRank n r).GrantsRank e 0 := by
      obtain ⟨line, hline, hdenotes⟩ | ⟨line, hline, hdenotes⟩ := hdenoted
      · exact ⟨line, hline, _, hdenotes, onlyRank_grants.1⟩
      · exact ⟨line, hline, _, hdenotes, onlyRank_grants.2⟩
    obtain ⟨line, hline, e, hasked, hgrants⟩ := hlist.mpr hgrants
    obtain rfl | rfl := eq_of_onlyRank hgrants
    · exact .inl ⟨line, hline, hasked⟩
    · exact .inr ⟨line, hline, hasked⟩

/-- No rank has a name with an '@', so the rank of that name comes with its guild. -/
theorem guild (h : Follows text) : Asked text (.guild n) ↔ Denoted text (.guild n) := by
  have hasked : ¬Asked text (.rank [64] n) := by
    rintro ⟨line, -, -, hasks⟩
    generalize asLowerCaseString (AccessList.trimLine line) = d at hasks
    generalize hname : ([64] : Str) = m at hasks
    cases hasks with
    | rank n hat hr =>
      exact hat (List.mem_of_mem_dropLast (hname ▸ List.mem_singleton_self 64))
  have hdenoted : ¬Denoted text (.rank [64] n) := by
    rintro ⟨line, -, -, hreads⟩
    generalize asLowerCaseString (trim isBlank line) = d at hreads
    cases hreads with
    | rank n hat hr => exact hat (List.mem_singleton_self 64)
  have hor := h.guild_or_rank [64] (n := n)
  rwa [or_iff_left hasked, or_iff_left hdenoted] at hor

theorem rank (h : Follows text) (hn : ¬Denoted text (.guild n)) :
    Asked text (.rank r n) ↔ Denoted text (.rank r n) := by
  have hor := h.guild_or_rank r (n := n)
  rwa [or_iff_right (mt h.guild.mp hn), or_iff_right hn] at hor

end Follows

/-! ### The texts that are followed -/

/-- The line of an entry. -/
def Entry.written : Entry → Str
  | .name n => n
  | .guild n => 64 :: n
  | .rank r n => r ++ 64 :: n

theorem Reads.eq_written (h : Reads d e) : d = e.written := by
  cases h <;> rfl

theorem Asks.reads (h : Asks d e) (he : ∀ r n, e ≠ .rank r n) : Reads d e := by
  cases h with
  | name hat hstar _ => exact .name hat hstar
  | guild n => exact .guild n
  | rank n _ _ => exact absurd rfl (he _ n)

/-- An entry other than a rank that is asked for and denoted has a plain line. -/
theorem plain_of_asked (he : ∀ r n, e ≠ .rank r n) (hasked : Asked text e)
    (hdenoted : Denoted text e) : Plain text e := by
  obtain ⟨line, hline, hasked⟩ := hasked
  obtain ⟨_, _, hdenotes⟩ := hdenoted
  obtain ⟨d, -, hd, hbare⟩ := hdenotes.bare
  have hreads := hasked.2.reads he
  have heq : asLowerCaseString (AccessList.trimLine line) = d :=
    hreads.eq_written.trans hd.eq_written.symm
  exact ⟨line, hline, hasked, hasked.denotes (heq ▸ hbare) hreads⟩

/-- The rank that is found by a name cut short was denoted by a longer one. -/
theorem Follows.exists_longer (h : Follows text) (hn : ¬Denoted text (.guild n))
    (hr : Denoted text (.rank r n)) : ∃ c, Denoted text (.rank (r ++ [c]) n) := by
  obtain ⟨line, hline, hasked⟩ := (h.rank hn).mpr hr
  obtain ⟨_, _, hdenotes⟩ := hr
  obtain ⟨d, -, hd, hbare⟩ := hdenotes.bare
  have hne : r ≠ [] := by
    generalize hrank : Entry.rank r n = e' at hd
    cases hd with
    | rank n _ hne =>
      cases hrank
      exact hne
    | name => cases hrank
    | guild => cases hrank
  rw [hd.eq_written, Entry.written] at hbare
  have hasks : ∃ s, asLowerCaseString (AccessList.trimLine line) = s ++ 64 :: n ∧ 64 ∉ s ∧
      s ≠ [] ∧ s.dropLast = r := by
    obtain ⟨-, hasks⟩ := hasked
    generalize asLowerCaseString (AccessList.trimLine line) = low at hasks
    generalize hrank : Entry.rank r n = e' at hasks
    cases hasks with
    | @rank s n hat hs =>
      cases hrank
      exact ⟨s, rfl, hat, hs, rfl⟩
    | name => cases hrank
    | guild => cases hrank
  obtain ⟨s, hlow, hat, hs, hcut⟩ := hasks
  have hsplit : r ++ [s.getLast hs] = s := by rw [← hcut, List.dropLast_append_getLast hs]
  have hbare' : Bare isBlank (s ++ 64 :: n) := by
    constructor
    · intro c hc
      refine hbare.head c ?_
      rw [← hsplit] at hc
      cases r with
      | nil => exact absurd rfl hne
      | cons a r => exact hc
    · intro c hc
      refine hbare.last c ?_
      rw [List.getLast?_append_cons] at hc ⊢
      exact hc
  refine ⟨s.getLast hs, line, hline, ?_⟩
  rw [hsplit]
  rw [← hlow] at hbare'
  exact hasked.denotes hbare' (hlow ▸ .rank n hat hs)

/-- A line has at most 100 characters, so a rank comes with its guild. -/
theorem Follows.denoted_guild (h : Follows text) (hr : Denoted text (.rank r n)) :
    Denoted text (.guild n) := by
  by_contra hn
  have hlong : ∀ k, ∃ r, Denoted text (.rank r n) ∧ k ≤ r.length := by
    intro k
    induction k with
    | zero => exact ⟨r, hr, Nat.zero_le _⟩
    | succ k ih =>
      obtain ⟨s, hs, hk⟩ := ih
      obtain ⟨c, hlonger⟩ := h.exists_longer hn hs
      refine ⟨s ++ [c], hlonger, ?_⟩
      rw [List.length_append, List.length_singleton]
      omega
  obtain ⟨s, ⟨_, _, hdenotes⟩, hlength⟩ := hlong 101
  obtain ⟨d, hcounts, hd, -⟩ := hdenotes.bare
  have hd := hd.eq_written
  have hmax := hcounts.length
  rw [hd, Entry.written, List.length_append] at hmax
  omega

theorem Follows.covered (h : Follows text) (he : Asked text e ∨ Denoted text e) :
    Covered text e := by
  cases e with
  | name n =>
    have hboth : Asked text (.name n) ∧ Denoted text (.name n) := by
      obtain hasked | hdenoted := he
      · exact ⟨hasked, h.name.mp hasked⟩
      · exact ⟨h.name.mpr hdenoted, hdenoted⟩
    exact plain_of_asked nofun hboth.1 hboth.2
  | guild n =>
    have hboth : Asked text (.guild n) ∧ Denoted text (.guild n) := by
      obtain hasked | hdenoted := he
      · exact ⟨hasked, h.guild.mp hasked⟩
      · exact ⟨h.guild.mpr hdenoted, hdenoted⟩
    exact plain_of_asked nofun hboth.1 hboth.2
  | rank r n =>
    have hguild : Denoted text (.guild n) := by
      by_contra hn
      have hdenoted : Denoted text (.rank r n) := he.elim (h.rank hn).mp id
      exact hn (h.denoted_guild hdenoted)
    exact plain_of_asked nofun (h.guild.mpr hguild) hguild

theorem Covered.exists_player (h : Covered text e) (hgrants : g.GrantsPlayer e id) :
    ∃ e', Plain text e' ∧ g.GrantsPlayer e' id := by
  cases hgrants with
  | name hplayer => exact ⟨_, h, .name hplayer⟩

theorem Covered.exists_rank (h : Covered text e) (hgrants : g.GrantsRank e id) :
    ∃ e', Plain text e' ∧ g.GrantsRank e' id := by
  cases hgrants with
  | guild hguild hrank => exact ⟨_, h, .guild hguild hrank⟩
  | rank hguild hrank => exact ⟨_, h, .guild hguild (List.mem_of_find?_eq_some hrank)⟩

/-- Where every line is covered by plain ones, the list follows the grammar. -/
theorem follows_of_covered
    (h : ∀ line ∈ lines text, ∀ e, AskedBy line e ∨ Denotes line e → Covered text e) :
    Follows text := by
  refine fun g => ⟨fun id => ?_, fun id => ?_⟩
  · rw [(AccessList.mem_parseList g text id).1]
    constructor
    · rintro ⟨line, hline, e, hasked, hgrants⟩
      obtain ⟨e', ⟨line', hline', -, hdenotes⟩, hgrants'⟩ :=
        (h line hline e (.inl hasked)).exists_player hgrants
      exact ⟨line', hline', e', hdenotes, hgrants'⟩
    · rintro ⟨line, hline, e, hdenotes, hgrants⟩
      obtain ⟨e', ⟨line', hline', hasked, -⟩, hgrants'⟩ :=
        (h line hline e (.inr hdenotes)).exists_player hgrants
      exact ⟨line', hline', e', hasked, hgrants'⟩
  · rw [(AccessList.mem_parseList g text id).2]
    constructor
    · rintro ⟨line, hline, e, hasked, hgrants⟩
      obtain ⟨e', ⟨line', hline', -, hdenotes⟩, hgrants'⟩ :=
        (h line hline e (.inl hasked)).exists_rank hgrants
      exact ⟨line', hline', e', hdenotes, hgrants'⟩
    · rintro ⟨line, hline, e, hdenotes, hgrants⟩
      obtain ⟨e', ⟨line', hline', hasked, -⟩, hgrants'⟩ :=
        (h line hline e (.inr hdenotes)).exists_rank hgrants
      exact ⟨line', hline', e', hasked, hgrants'⟩

/-- A text is followed just in case plain lines grant what the others ask for and what they
denote. -/
theorem follows_iff (text : Str) : Follows text ↔
    ∀ line ∈ lines text, ∀ e, AskedBy line e ∨ Denotes line e → Covered text e :=
  ⟨fun h line hline _ he => h.covered (he.imp (⟨line, hline, ·⟩) (⟨line, hline, ·⟩)),
    follows_of_covered⟩

/-- The rank "ab" of the guild "c". -/
theorem not_follows_rank : ¬Follows [97, 98, 64, 99] := by
  intro h
  have hlines : lines [97, 98, 64, 99] = [[97, 98, 64, 99]] := by decide
  have hlow : asLowerCaseString (trim isBlank [97, 98, 64, 99]) = [97, 98, 64, 99] := by decide
  have hdenotes : Denotes [97, 98, 64, 99] (.rank [97, 98] [99]) := by
    rw [Denotes, hlow]
    have hreads : Reads ([97, 98] ++ 64 :: [99]) (.rank [97, 98] [99]) :=
      .rank [99] (by decide) (by decide)
    exact ⟨⟨by decide, by decide, by decide⟩, hreads⟩
  obtain ⟨line, hline, hguild⟩ := h.denoted_guild ⟨_, hlines ▸ List.mem_singleton_self _, hdenotes⟩
  rw [hlines, List.mem_singleton] at hline
  subst hline
  rw [Denotes, hlow] at hguild
  exact absurd hguild.2.eq_written (by decide)

end OTServBR.House
