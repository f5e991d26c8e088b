import Mathlib.Data.UInt
import Mathlib.Order.Basic
import OTServBR.Item.Attributes
import OTServBR.Lib.SortedMap

/-! # Chat channels

Players talk in channels: those of the server, those of a party or a guild, and
private ones, which a player owns and invites others to. What a function sends
comes with its result.
-/

namespace OTServBR.Channels

/-- A player, whose guid is a row number of the database. -/
structure Player where
  id : UInt32
  guid : UInt32
  name : Str := []
  female : Bool := false
  guid_ne : guid ≠ 0
  deriving DecidableEq

/-- The ways to speak that go to a channel. -/
inductive SpeakClass
  | channelY | channelO | channelR1
  deriving DecidableEq, Repr

inductive ChannelEvent
  | join | leave | invite | exclude
  deriving DecidableEq, Repr

inductive Packet
  | channelEvent (channelId : UInt16) (name : Str) (event : ChannelEvent)
  | closePrivate (channelId : UInt16)
  | toChannel (speaker : Player) (type : SpeakClass) (text : Str) (channelId : UInt16)
  | textMessage (text : Str)
  | createPrivateChannel (channelId : UInt16) (name : Str)
  | channel (channelId : UInt16) (name : Str) (users invited : Option (List Player))
  deriving DecidableEq

/-- Packets with their receivers. -/
abbrev Sent := List (Player × Packet)

/-- The scripts of the channels of the server, as far as they answer. -/
structure Scripts where
  canJoin : UInt16 → Player → Bool := fun _ _ => true
  onJoin : UInt16 → Player → Bool := fun _ _ => true
  onSpeak : UInt16 → Player → SpeakClass → Str → Option SpeakClass := fun _ _ type _ => some type

/-- A channel. Only private ones have an owner and invitations; users are sorted by their ids and
invitations by guid. -/
structure ChatChannel where
  id : UInt16
  name : Str := []
  publicChannel : Bool := false
  owner : UInt32 := 0
  users : List Player := []
  invites : List Player := []
  deriving DecidableEq

def channelGuild : UInt16 := 0
def channelParty : UInt16 := 1
def channelPrivate : UInt16 := 0xFFFF

namespace ChatChannel

variable (c : ChatChannel) (player other : Player)

def hasUser : Bool := c.users.any (·.id = player.id)

def isInvited (guid : UInt32) : Bool := guid = c.owner || c.invites.any (·.guid = guid)

/-- A packet for all users. -/
def toUsers (p : Packet) : Sent := c.users.map fun user => (user, p)

/-- `executeOnJoinEvent` gives `joins`. -/
def addUser (joins : Bool) : Bool × ChatChannel × Sent :=
  if c.hasUser player then (false, c, [])
  else if !joins then (false, c, [])
  else
    (true, { c with users := SortedMap.insert (·.id.toNat) player c.users },
      if c.publicChannel then [] else c.toUsers (.channelEvent c.id player.name .join))

def removeUser : Bool × ChatChannel × Sent :=
  if !c.hasUser player then (false, c, [])
  else
    let c := { c with users := c.users.filter (·.id != player.id) }
    (true, c, if c.publicChannel then [] else c.toUsers (.channelEvent c.id player.name .leave))

def removeInvite : ChatChannel := { c with invites := c.invites.filter (·.guid != player.guid) }

/-- " invites you to her private chat channel." -/
def invitation : Str :=
  player.name ++ " invites you to ".toUTF8.toList ++
    (if player.female then "her" else "his").toUTF8.toList ++
    " private chat channel.".toUTF8.toList

def invitePlayer : ChatChannel × Sent :=
  if c.invites.any (·.guid = other.guid) then (c, [])
  else
    ({ c with invites := SortedMap.insert (·.guid.toNat) other c.invites },
      (other, .textMessage (invitation player)) ::
        (player, .textMessage (other.name ++ " has been invited.".toUTF8.toList)) ::
        c.toUsers (.channelEvent c.id other.name .invite))

def excludePlayer : ChatChannel × Sent :=
  if !c.invites.any (·.guid = other.guid) then (c, [])
  else
    let (_, c, sent) := (c.removeInvite other).removeUser other
    (c, sent ++ (player, .textMessage (other.name ++ " has been excluded.".toUTF8.toList)) ::
      (other, .closePrivate c.id) :: c.toUsers (.channelEvent c.id other.name .exclude))

def closeChannel : Sent := c.toUsers (.closePrivate c.id)

def talk (type : SpeakClass) (text : Str) : Bool × Sent :=
  if !c.hasUser player then (false, [])
  else (true, c.toUsers (.toChannel player type text c.id))

end ChatChannel

/-! ## The maps of channels -/

/-- The map a channel is in, and its key there. A party is known by its address. -/
inductive Ref
  | normalChannel (id : UInt16)
  | privateChannel (id : UInt16)
  | partyChannel (party : ℕ)
  | guildChannel (id : UInt32)
  deriving DecidableEq, Repr

abbrev ChannelMap (κ : Type) := List (κ × ChatChannel)

structure Chat where
  normalChannels : ChannelMap UInt16 := []
  privateChannels : ChannelMap UInt16 := []
  partyChannels : ChannelMap ℕ := []
  guildChannels : ChannelMap UInt32 := []

/-- The players that are online, with the address of their party, and the id and the name of their
guild. -/
structure World where
  online : List Player := []
  party : UInt32 → Option ℕ := fun _ => none
  guild : UInt32 → Option (UInt32 × Str) := fun _ => none
  chat : Chat := {}

/-- Change the channel of a key. -/
def ChannelMap.modify {κ : Type} [DecidableEq κ] (m : ChannelMap κ) (k : κ)
    (f : ChatChannel → ChatChannel) : ChannelMap κ :=
  m.map fun e => if e.1 = k then (e.1, f e.2) else e

def ChannelMap.erase {κ : Type} [DecidableEq κ] (m : ChannelMap κ) (k : κ) : ChannelMap κ :=
  m.filter (·.1 ≠ k)

/-- Change all channels, and collect what is sent. -/
def ChannelMap.visit {κ : Type} (m : ChannelMap κ) (f : ChatChannel → ChatChannel × Sent) :
    ChannelMap κ × Sent :=
  (m.map fun e => (e.1, (f e.2).1), m.flatMap fun e => (f e.2).2)

namespace Chat

variable (chat : Chat)

def find : Ref → Option ChatChannel
  | .normalChannel id => chat.normalChannels.lookup id
  | .privateChannel id => chat.privateChannels.lookup id
  | .partyChannel party => chat.partyChannels.lookup party
  | .guildChannel id => chat.guildChannels.lookup id

def modify (f : ChatChannel → ChatChannel) : Ref → Chat
  | .normalChannel id => { chat with normalChannels := chat.normalChannels.modify id f }
  | .privateChannel id => { chat with privateChannels := chat.privateChannels.modify id f }
  | .partyChannel party => { chat with partyChannels := chat.partyChannels.modify party f }
  | .guildChannel id => { chat with guildChannels := chat.guildChannels.modify id f }

def getPrivateChannel (player : Player) : Option (UInt16 × ChatChannel) :=
  chat.privateChannels.find? (·.2.owner = player.guid)

end Chat

namespace World

variable (w : World) (scripts : Scripts) (player : Player)

def getChannel (channelId : UInt16) : Option Ref :=
  if channelId = channelGuild then
    match w.guild player.id with
    | some (id, _) =>
      if (w.chat.find (.guildChannel id)).isSome then some (.guildChannel id) else none
    | none => none
  else if channelId = channelParty then
    match w.party player.id with
    | some party =>
      if (w.chat.find (.partyChannel party)).isSome then some (.partyChannel party) else none
    | none => none
  else if (w.chat.find (.normalChannel channelId)).isSome then
    if scripts.canJoin channelId player then some (.normalChannel channelId) else none
  else
    match w.chat.find (.privateChannel channelId) with
    | some c => if c.isInvited player.guid then some (.privateChannel channelId) else none
    | none => none

def setChat (chat : Chat) : World := { w with chat := chat }

/-- The first free number of a private channel, with the number of rounds left and the number the
loop has come to. -/
def freeChannel (m : ChannelMap UInt16) : ℕ → UInt16 → Option UInt16
  | 0, _ => none
  | n + 1, i => if (m.lookup i).isNone then some i else freeChannel m n (i + 1)

def createChannel (isPremium : Bool) (channelId : UInt16) : Option Ref × World :=
  if (w.getChannel scripts player channelId).isSome then (none, w)
  else if channelId = channelGuild then
    match w.guild player.id with
    | some (id, name) =>
      (some (.guildChannel id), w.setChat { w.chat with
        guildChannels := SortedMap.insert (·.1.toNat) (id, { id := channelId, name := name })
          w.chat.guildChannels })
    | none => (none, w)
  else if channelId = channelParty then
    match w.party player.id with
    | some party =>
      (some (.partyChannel party), w.setChat { w.chat with
        partyChannels := SortedMap.insert (·.1)
          (party, { id := channelId, name := "Party".toUTF8.toList }) w.chat.partyChannels })
    | none => (none, w)
  else if channelId = channelPrivate then
    if !isPremium || (w.chat.getPrivateChannel player).isSome then (none, w)
    else
      match freeChannel w.chat.privateChannels 9900 100 with
      | some i =>
        (some (.privateChannel i), w.setChat { w.chat with
          privateChannels := SortedMap.insert (·.1.toNat)
            (i, { id := i, name := player.name ++ "'s Channel".toUTF8.toList,
                  owner := player.guid }) w.chat.privateChannels })
      | none => (none, w)
  else (none, w)

def deleteChannel (channelId : UInt16) : World × Sent :=
  if channelId = channelGuild then
    match w.guild player.id with
    | some (id, _) =>
      (w.setChat { w.chat with guildChannels := w.chat.guildChannels.erase id }, [])
    | none => (w, [])
  else if channelId = channelParty then
    match w.party player.id with
    | some party =>
      (w.setChat { w.chat with partyChannels := w.chat.partyChannels.erase party }, [])
    | none => (w, [])
  else
    match w.chat.privateChannels.lookup channelId with
    | some c =>
      (w.setChat { w.chat with privateChannels := w.chat.privateChannels.erase channelId },
        c.closeChannel)
    | none => (w, [])

/-- Whether the script of a channel lets a player in; only channels of the server have one. -/
def joins : Ref → Bool
  | .normalChannel id => scripts.onJoin id player
  | _ => true

/-- `addUser` of a channel in a map. -/
def addUser (ref : Ref) : Option ChatChannel × World × Sent :=
  match w.chat.find ref with
  | some c =>
    match c.addUser player (joins scripts player ref) with
    | (true, c', sent) => (some c', w.setChat (w.chat.modify (fun _ => c') ref), sent)
    | (false, _, sent) => (none, w, sent)
  | none => (none, w, [])

def addUserToChannel (channelId : UInt16) : Option ChatChannel × World × Sent :=
  match w.getChannel scripts player channelId with
  | some ref => w.addUser scripts player ref
  | none => (none, w, [])

def removeUserFromChannel (channelId : UInt16) : World × Sent :=
  match w.getChannel scripts player channelId with
  | some ref =>
    match w.chat.find ref with
    | some c =>
      match c.removeUser player with
      | (true, c', sent) =>
        let w := w.setChat (w.chat.modify (fun _ => c') ref)
        if c.owner = player.guid then
          let (w, closed) := w.deleteChannel player channelId
          (w, sent ++ closed)
        else (w, sent)
      | (false, _, _) => (w, [])
    | none => (w, [])
  | none => (w, [])

/-- What becomes of a private channel when a player is gone. -/
def leavePrivate (e : UInt16 × ChatChannel) : Option (UInt16 × ChatChannel) × Sent :=
  let (_, c, sent) := (e.2.removeInvite player).removeUser player
  if c.owner = player.guid then (none, sent ++ c.closeChannel) else (some (e.1, c), sent)

def removeUserFromAllChannels : World × Sent :=
  let leave (c : ChatChannel) : ChatChannel × Sent := (c.removeUser player).2
  let (normal, sent) := w.chat.normalChannels.visit leave
  let (party, sent') := w.chat.partyChannels.visit leave
  let (guild, sent'') := w.chat.guildChannels.visit leave
  (w.setChat
    { normalChannels := normal
      partyChannels := party
      guildChannels := guild
      privateChannels := w.chat.privateChannels.filterMap fun e => (leavePrivate player e).1 },
    sent ++ sent' ++ sent'' ++
      w.chat.privateChannels.flatMap fun e => (leavePrivate player e).2)

/-- In a guild only those of a higher rank speak otherwise than others. -/
def talkType (rankLevel : Option ℕ) (type : SpeakClass) (channelId : UInt16) : SpeakClass :=
  if channelId = channelGuild then if rankLevel.any (1 < ·) then .channelO else .channelY
  else if channelId = channelPrivate ∨ channelId = channelParty then .channelY
  else type

def talkToChannel (rankLevel : Option ℕ) (type : SpeakClass) (text : Str) (channelId : UInt16) :
    Bool × Sent :=
  match w.getChannel scripts player channelId with
  | some ref =>
    let type := talkType rankLevel type channelId
    let spoken := match ref with
      | .normalChannel id => scripts.onSpeak id player type text
      | _ => some type
    match spoken, w.chat.find ref with
    | some type, some c => c.talk player type text
    | _, _ => (false, [])
  | none => (false, [])

/-- The channel of the guild or the party, which is made when it is asked for. -/
def offered (channelId : UInt16) : Option Ref × World :=
  match w.getChannel scripts player channelId with
  | some ref => (some ref, w)
  | none => w.createChannel scripts player false channelId

/-- The channels that a player may open; in front is the offer of a private one, as `none`. -/
def getChannelList (isPremium : Bool) : List (Option Ref) × World :=
  let (guild, w) :=
    if (w.guild player.id).isSome then w.offered scripts player channelGuild else (none, w)
  let (party, w) :=
    if (w.party player.id).isSome then w.offered scripts player channelParty else (none, w)
  let normal := w.chat.normalChannels.filterMap fun e => w.getChannel scripts player e.1
  let invited := (w.chat.privateChannels.filter (·.2.isInvited player.guid)).map
    fun e => Ref.privateChannel e.1
  let hasPrivate := w.chat.privateChannels.any (·.2.owner = player.guid)
  let list := (guild.toList ++ party.toList ++ normal ++ invited).map some
  (if !hasPrivate && isPremium then none :: list else list, w)

/-! ## Requests -/

def playerCreatePrivateChannel (isPremium : Bool) : World × Sent :=
  if !isPremium then (w, [])
  else
    match w.createChannel scripts player isPremium channelPrivate with
    | (some ref, w) =>
      match w.addUser scripts player ref with
      | (some c, w, sent) => (w, sent ++ [(player, .createPrivateChannel c.id c.name)])
      | (none, w, sent) => (w, sent)
    | (none, w) => (w, [])

def playerChannelInvite (invitePlayer : Player) : World × Sent :=
  match w.chat.getPrivateChannel player with
  | some (id, c) =>
    if player = invitePlayer then (w, [])
    else
      let (c, sent) := c.invitePlayer player invitePlayer
      (w.setChat (w.chat.modify (fun _ => c) (.privateChannel id)), sent)
  | none => (w, [])

def playerChannelExclude (excludePlayer : Player) : World × Sent :=
  match w.chat.getPrivateChannel player with
  | some (id, c) =>
    if player = excludePlayer then (w, [])
    else
      let (c, sent) := c.excludePlayer player excludePlayer
      (w.setChat (w.chat.modify (fun _ => c) (.privateChannel id)), sent)
  | none => (w, [])

def playerOpenChannel (channelId : UInt16) : World × Sent :=
  match w.addUserToChannel scripts player channelId with
  | (some c, w, sent) =>
    (w, sent ++ [(player, .channel c.id c.name (if c.publicChannel then none else some c.users)
      (if c.owner = 0 then none else some c.invites))])
  | (none, w, sent) => (w, sent)

/-- `setParty` and, when a player leaves a party, `sendClosePrivate`, in this order. -/
def setParty (party : Option ℕ) : World × Sent :=
  let w := { w with party := Function.update w.party player.id party }
  match party with
  | some _ => (w, [])
  | none =>
    let (w, sent) := w.removeUserFromChannel scripts player channelParty
    (w, sent ++ [(player, .closePrivate channelParty)])

/-- The part of `onRemoveCreature` that is about the chat. -/
def logout : World × Sent :=
  let (w, sent) :=
    if (w.party player.id).isSome then w.setParty scripts player none else (w, [])
  let (w, sent') := w.removeUserFromAllChannels player
  ({ w with online := w.online.filter (· ≠ player) }, sent ++ sent')

end World

/-! ## Runs -/

/-- What happens to the chat, with the player that does it. -/
inductive Action
  | login (player : Player)
  | logout (player : Player)
  /-- A client takes over a player that is in the game. -/
  | connect (player : Player)
  | setParty (player : Player) (party : Option ℕ)
  | setGuild (player : Player) (guild : Option (UInt32 × Str))
  | requestChannels (player : Player) (isPremium : Bool)
  | createPrivateChannel (player : Player) (isPremium : Bool)
  | channelInvite (player other : Player)
  | channelExclude (player other : Player)
  | openChannel (player : Player) (channelId : UInt16)
  | closeChannel (player : Player) (channelId : UInt16)
  | talk (player : Player) (rankLevel : Option ℕ) (type : SpeakClass) (text : Str)
      (channelId : UInt16)

def step (scripts : Scripts) (w : World) : Action → World × Sent
  | .login player => ({ w with online := player :: w.online }, [])
  | .logout player => w.logout scripts player
  | .connect player => w.removeUserFromAllChannels player
  | .setParty player party => w.setParty scripts player party
  | .setGuild player guild =>
    ({ w with guild := Function.update w.guild player.id guild }, [])
  | .requestChannels player isPremium => ((w.getChannelList scripts player isPremium).2, [])
  | .createPrivateChannel player isPremium => w.playerCreatePrivateChannel scripts player isPremium
  | .channelInvite player other => w.playerChannelInvite player other
  | .channelExclude player other => w.playerChannelExclude player other
  | .openChannel player channelId => w.playerOpenChannel scripts player channelId
  | .closeChannel player channelId => w.removeUserFromChannel scripts player channelId
  | .talk player rankLevel type text channelId =>
    (w, (w.talkToChannel scripts player rankLevel type text channelId).2)

/-- Those who do something are online, and those who log in were not. -/
def Action.Ok (w : World) : Action → Prop
  | .login player => ∀ p ∈ w.online, p.id ≠ player.id ∧ p.guid ≠ player.guid
  | .channelInvite player other | .channelExclude player other =>
    player ∈ w.online ∧ other ∈ w.online
  | .logout player | .connect player | .setParty player _ | .setGuild player _
  | .requestChannels player _ | .createPrivateChannel player _ | .openChannel player _
  | .closeChannel player _ | .talk player _ _ _ _ => player ∈ w.online

instance (w : World) : (action : Action) → Decidable (action.Ok w)
  | .login _ => inferInstanceAs (Decidable (∀ _ ∈ w.online, _))
  | .channelInvite .. | .channelExclude .. => inferInstanceAs (Decidable (_ ∧ _))
  | .logout _ | .connect _ | .setParty .. | .setGuild .. | .requestChannels ..
  | .createPrivateChannel .. | .openChannel .. | .closeChannel .. | .talk .. =>
    inferInstanceAs (Decidable (_ ∈ w.online))

end OTServBR.Channels
