import RecommEngine.Idl
import RecommEngine.Theory.Chain
import RecommEngine.Theory.Run
import RecommEngine.Theory.MarkedSeq
import RecommEngine.Theory.TopK
import RecommEngine.Theory.ByteStream
import RecommEngine.Theory.Decimal
import RecommEngine.Theory.Circle
import RecommEngine.Theory.CondVar
import RecommEngine.Theory.Pipeline
import RecommEngine.Theory.FirstOfKind
import RecommEngine.Theory.MaximalRuns
import RecommEngine.Theory.LinkRing
import RecommEngine.Theory.Incremental
import RecommEngine.Util.LocklessList
import RecommEngine.Util.LocklessRace
import RecommEngine.Util.LocklessCuts
import RecommEngine.Util.ProducerConsumerQueue
import RecommEngine.Util.QueueHistory
import RecommEngine.Util.QueueWakeup
import RecommEngine.Util.StrUtil
import RecommEngine.Util.SplitString
import RecommEngine.Util.Timer
import RecommEngine.Util.Tokenizer
import RecommEngine.Indexing.Posting
import RecommEngine.Indexing.PostingHeap
import RecommEngine.Indexing.Iterator
import RecommEngine.Indexing.ConcurrentRead
import RecommEngine.Indexing.InstantIndex
import RecommEngine.Indexing.BatchTranslation
import RecommEngine.Indexing.MarkAndClear
import RecommEngine.Indexing.Operations
import RecommEngine.Indexing.Integrity
import RecommEngine.Indexing.Attachments
import RecommEngine.Indexing.Refinement
import RecommEngine.Indexing.ReplayLog
import RecommEngine.Indexing.ReplayTermination
import RecommEngine.Indexing.LogRetention
import RecommEngine.Indexing.Recovery
import RecommEngine.Indexing.RetentionRuns
import RecommEngine.Indexing.Restore
import RecommEngine.Indexing.Cutoffs
import RecommEngine.Retrieval.IndexReader
import RecommEngine.Retrieval.RetrievalHandler
import RecommEngine.Retrieval.ConcurrentSearch
import RecommEngine.Retrieval.Rebuild
import RecommEngine.Retrieval.WaitList
import RecommEngine.Retrieval.SearchPool
import RecommEngine.Retrieval.PoolShutdown
import RecommEngine.StoryManagement
import RecommEngine.UserProfileStorage
import RecommEngine.UserProfileIncrement
import RecommEngine.RecommEngineHandler
import RecommEngine.ForwardStore
import RecommEngine.Serving
import RecommEngine.Redis.HashRing
import RecommEngine.Redis.RingRemoval
import RecommEngine.Redis.RedisCluster
import RecommEngine.UserProfileFailover
import RecommEngine.Redis.Hiredis
import RecommEngine.Redis.Client
import RecommEngine.Redis.Pipelining
import RecommEngine.Redis.Transaction
import RecommEngine.Redis.HashBatch
import RecommEngine.Hiredis.RedisReader
import RecommEngine.Hiredis.ReplyParser
import RecommEngine.Hiredis.ReplyWire
import RecommEngine.Hiredis.Numeral
import RecommEngine.Hiredis.ReplyEncode
import RecommEngine.Hiredis.FormatCommand
import RecommEngine.Hiredis.Context
import RecommEngine.RedisServer.Networking
import RecommEngine.RedisServer.CommandStream
import RecommEngine.Redis.Connection
import RecommEngine.Redis.CommandWire
import RecommEngine.AlgoPluginManager
import RecommEngine.PluginRouting
import RecommEngine.LoaderItems
import RecommEngine.DictBootstrap
