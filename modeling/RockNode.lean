import RockNode.SortedMap
import RockNode.Tiling
import RockNode.ReadProgram
import RockNode.Block
import RockNode.Database
import RockNode.GapTable
import RockNode.Service
import RockNode.Watermarks
import RockNode.Refinement
import RockNode.ArchiveName
import RockNode.Archiver
import RockNode.ArchiveFormat
import RockNode.ArchiverSpec
import RockNode.Chunks
import RockNode.Durability
import RockNode.ValueLimit
import RockNode.DurableRuns
import RockNode.Frontier
import RockNode.ArrivalOrder
import RockNode.StatePlugin
import RockNode.StateReplay
import RockNode.Assembly
import RockNode.Pipeline
import RockNode.Acknowledgement
import RockNode.CacheRace
import RockNode.Overlap
import RockNode.SerialPairs
import RockNode.Clash
import RockNode.ConcurrentRuns
import RockNode.Orphans
import RockNode.InFlight
import RockNode.SharedWatermark
import RockNode.Ledger
import RockNode.Outcomes
import RockNode.Ingestion
import RockNode.Skips
import RockNode.ArchivalOutcomes
import RockNode.Immutability
import RockNode.ReadRace
import RockNode.ExactMarks
import RockNode.ColdLookup
import RockNode.HistoricalBatches
import RockNode.Subscriber
import RockNode.SubscriberStreams
import RockNode.Backfill
import RockNode.ContinuousBackfill
import RockNode.Wakeups
import RockNode.LiveSessions
import RockNode.Fifo
import RockNode.QueueState
import RockNode.EndOfStream
import RockNode.Resends
import RockNode.Cursor
import RockNode.ArchivalCycle
import RockNode.GapFills
import RockNode.ArchivedRange
import RockNode.ArithmeticSafety
import RockNode.FaultyWrites
import RockNode.Retention
import RockNode.SignedNumbers
import RockNode.Conversation
import RockNode.LateItems
import RockNode.Publisher
import RockNode.SkipNumbers
import RockNode.Farewell
import RockNode.LastWriter
import RockNode.MapState
import RockNode.AccountQueries
import RockNode.LinkedList
import RockNode.TokenRelations
import RockNode.NodeServices
import RockNode.GapCheck
import RockNode.GapConvergence
import RockNode.RangeSessions
import RockNode.Replication
import RockNode.Retries
import RockNode.Following
import RockNode.LiveReplication
import RockNode.PeerStreams
import RockNode.Lives
import RockNode.Startup
import RockNode.MixedState
import RockNode.StateMirror
import RockNode.EntityMessages
import RockNode.EntityQueries
