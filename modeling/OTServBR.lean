import OTServBR.Lib.LittleEndian
import OTServBR.Lib.RoseTree
import OTServBR.Lib.SortedMap
import OTServBR.Lib.BreadthFirst
import OTServBR.Lib.Table
import OTServBR.Lib.Walk
import OTServBR.Item.Basic
import OTServBR.Persistence.MapSerialize
import OTServBR.Persistence.LoginData
import OTServBR.Persistence.Rewards
import OTServBR.Persistence.ReadBack
import OTServBR.Market.Gold
import OTServBR.Market.Wares
import OTServBR.Tile.Index
import OTServBR.Tile.Flags
import OTServBR.Scheduler.Order
import OTServBR.Map.Cache
import OTServBR.Map.PathContract
import OTServBR.Container.Weight
import OTServBR.Container.Limits
import OTServBR.Condition.Persist
import OTServBR.Player.Level
import OTServBR.Player.Outfits
import OTServBR.Player.Skills
import OTServBR.Condition.Effects
import OTServBR.Lib.Wheel
import OTServBR.Equipment.Imbuements
import OTServBR.Item.DecayTime
import OTServBR.Lib.Ledger
import OTServBR.Equipment.Basic
import OTServBR.Equipment.Login
import OTServBR.Party.Consistent
import OTServBR.Lib.Sweep
import OTServBR.Map.WalkCoherence
import OTServBR.Lib.Feistel
import OTServBR.Network.Xtea
import OTServBR.Lib.Blocks
import OTServBR.Lib.Bounded
import OTServBR.Network.XteaCodec
import OTServBR.Lib.Memory
import OTServBR.Network.Message
import OTServBR.Network.Protocol
import OTServBR.Network.Packets
import OTServBR.Tile.Description
import OTServBR.Tile.Stackpos
import OTServBR.Database.Tasks
import OTServBR.Database.Delivery
import OTServBR.Database.Progress
import OTServBR.Lib.Window
import OTServBR.Container.Pages
import OTServBR.Container.PageSync
import OTServBR.Spawn.Basic
import OTServBR.Spawn.Overlap
import OTServBR.Trade.Basic
import OTServBR.Trade.Consent
import OTServBR.View.Sight
import OTServBR.View.KnownCreatures
import OTServBR.View.MapDescription
import OTServBR.Network.Connection
import OTServBR.Guild.Basic
import OTServBR.Guild.Membership
import OTServBR.Market.Coins
import OTServBR.Player.Magic
import OTServBR.Player.DeathLoss
import OTServBR.Lib.Climb
import OTServBR.Player.Training
import OTServBR.Player.SkullTime
import OTServBR.Monster.Basic
import OTServBR.Monster.Notify
import OTServBR.Monster.Tracking
import OTServBR.Monster.Departure
import OTServBR.Lib.SkipCode
import OTServBR.Lib.Prune
import OTServBR.Player.Inventory
import OTServBR.Player.RemoveItems
import OTServBR.Lib.BitString
import OTServBR.Lib.Base32
import OTServBR.Lib.Sha1
import OTServBR.Account.Secret
import OTServBR.Account.Digest
import OTServBR.Lib.Hotp
import OTServBR.Account.Token
import OTServBR.Player.WildcardTree
import OTServBR.Player.NameSearch
import OTServBR.Player.WaitingList
import OTServBR.Lib.Raster
import OTServBR.Map.SightLine
import OTServBR.Lib.TreeCode
import OTServBR.Persistence.FileLoader
import OTServBR.Market.GameStore
import OTServBR.Map.PathOrder
import OTServBR.Map.PathOptimal
import OTServBR.Lib.RunningSums
import OTServBR.Network.Adler
import OTServBR.Container.FreeSlots
import OTServBR.Database.Insert
import OTServBR.Lib.Extremal
import OTServBR.Monster.SearchTarget
import OTServBR.Lib.Transaction
import OTServBR.Market.CoinTransfer
import OTServBR.Item.Equals
import OTServBR.Lib.Placement
import OTServBR.Combat.Area
import OTServBR.Lib.Trim
import OTServBR.House.AccessList
import OTServBR.Condition.Damage
import OTServBR.Lib.Custody
import OTServBR.House.Depot
import OTServBR.Item.AttributeMap
import OTServBR.Lib.LevelOrder
import OTServBR.Container.Iterator
import OTServBR.Map.Tiles
import OTServBR.House.Rebuild
import OTServBR.House.Collect
import OTServBR.House.Eviction
import OTServBR.Lib.Gate
import OTServBR.Network.Ban
import OTServBR.Player.Slots
import OTServBR.Player.Dress
import OTServBR.Chat.Basic
import OTServBR.Chat.Private
import OTServBR.Chat.Party
