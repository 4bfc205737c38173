import Lidis.Lib.CString
import Lidis.Lib.CInt
import Lidis.Lib.FiniteMap
import Lidis.Lib.Entries
import Lidis.Lib.Simulation
import Lidis.Engine
import Lidis.Lib.ColoredTree
import Lidis.Lib.TreeSearch
import Lidis.Lib.RedBlackFixup
import Lidis.Lib.RedBlackRemoval
import Lidis.Rbtree
import Lidis.RbtreeShape
import Lidis.RbtreeFocus
import Lidis.RbtreeRotation
import Lidis.RbtreeInsertion
import Lidis.RbtreeDeletion
import Lidis.RbtreeSearch
import Lidis.RbtreeOperations
import Lidis.RbtreeEntries
import Lidis.KvsRbtree
import Lidis.Lib.Chain
import Lidis.Skiplist
import Lidis.SkiplistShape
import Lidis.SkiplistUpdate
import Lidis.SkiplistOperations
import Lidis.KvsSkiplist
import Lidis.Lib.ListScan
import Lidis.KvsArray
import Lidis.KvsHash
import Lidis.Lib.Decimal
import Lidis.Lib.ReplyStream
import Lidis.Kvsp
import Lidis.KvspFrame
import Lidis.KvspItems
import Lidis.KvspTokens
import Lidis.KvspStream
import Lidis.Lib.TrackedMemory
import Lidis.KvspAccess
import Lidis.Lib.Recovery
import Lidis.Lib.FileImage
import Lidis.Resp
import Lidis.RespFrame
import Lidis.RespSafety
import Lidis.Incremental
import Lidis.Store
import Lidis.Client
import Lidis.KvsFile
import Lidis.KvsLog
import Lidis.KvsSave
import Lidis.Kvstore
import Lidis.Dispatch
import Lidis.Requests
import Lidis.Replay
import Lidis.Aof
import Lidis.SnapshotWrite
import Lidis.SnapshotContent
import Lidis.SnapshotLoad
import Lidis.Lib.Absorb
import Lidis.KvsSync
import Lidis.FullSync
import Lidis.Lib.Ring
import Lidis.KvsAgent
import Lidis.AgentCache
import Lidis.AgentRelay
import Lidis.AgentStream
import Lidis.KvsInit
import Lidis.Restart
import Lidis.TornLog
import Lidis.CrashLog
import Lidis.TornTail
import Lidis.Server
import Lidis.Encoding
import Lidis.Fragmentation
import Lidis.Agreement
import Lidis.Transparency
import Lidis.Replies
import Lidis.Delivery
import Lidis.ReplyRoom
import Lidis.Atomicity
import Lidis.SaveRuns
import Lidis.MasterAgent
import Lidis.Replication
import Lidis.Lib.ByteMemory
import Lidis.Lib.DoublyLinked
import Lidis.KvsMempool
import Lidis.MempoolMemory
import Lidis.MempoolLists
import Lidis.MempoolInvariant
import Lidis.MempoolFrame
import Lidis.MempoolOrigin
import Lidis.MempoolRuns
import Lidis.MempoolRoom
import Lidis.ShortArguments
import Lidis.FileReplay
import Lidis.SaveRing
import Lidis.SnapshotReport
import Lidis.LogRing
import Lidis.AgentCommand
import Lidis.ControlMessage
import Lidis.Lib.ByteOrder
import Lidis.RdmaCom
import Lidis.RdmaPolling
import Lidis.SlabCarving
import Lidis.ParserCopies
import Lidis.SubmissionQueue
import Lidis.RawEngines
import Lidis.FreshEngines
import Lidis.Ntyco
import Lidis.Serialization
import Lidis.ClientHistories
import Lidis.SyncSession
import Lidis.SyncSafety
import Lidis.AgentThreads
import Lidis.FanOut
import Lidis.Lib.Ledger
import Lidis.RbtreeOwnership
import Lidis.MempoolTeardown
import Lidis.SkiplistOwnership
import Lidis.ArrayHeap
