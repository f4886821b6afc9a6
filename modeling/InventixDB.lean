import InventixDB.Lib.OpenAddressing
import InventixDB.Lib.ProbedMap
import InventixDB.Lib.ProbedRun
import InventixDB.Lib.ProbedFrame
import InventixDB.Lib.ByteCodec
import InventixDB.Lib.SlotTable
import InventixDB.Lib.Buffer
import InventixDB.Storage.CStr
import InventixDB.Storage.SlottedPage
import InventixDB.Storage.PageLayout
import InventixDB.Storage.Double
import InventixDB.Storage.BTree
import InventixDB.Storage.KVStore
import InventixDB.Storage.IndexScan
import InventixDB.Storage.MapRefinement
import InventixDB.Storage.Recovery
import InventixDB.Storage.Durability
import InventixDB.Storage.Checkpoint
import InventixDB.Executor.Ast
import InventixDB.Executor.Row
import InventixDB.Transaction.Manager
import InventixDB.Executor.Statements
import InventixDB.Executor.Conditions
import InventixDB.Executor.Writes
import InventixDB.Transaction.Undo
import InventixDB.Transaction.Lifecycle
import InventixDB.Transaction.Rollback
import InventixDB.Transaction.Savepoint
import InventixDB.Transaction.Crash
import InventixDB.Server.Sessions
import InventixDB.Mvcc.Manager
import InventixDB.Mvcc.Steps
import InventixDB.Mvcc.Snapshot
import InventixDB.Mvcc.Visibility
import InventixDB.Mvcc.Locks
import InventixDB.Mvcc.LockExclusion
import InventixDB.Cluster.Raft
import InventixDB.Cluster.Voting
import InventixDB.Cluster.Election
import InventixDB.Sql.Lexer
import InventixDB.Sql.Ast
import InventixDB.Executor.Select
import InventixDB.Sql.Parser
import InventixDB.Sql.Pieces
import InventixDB.Server.Prepared
import InventixDB.Server.Security
import InventixDB.Server.Substitution
import InventixDB.Server.Queries
import InventixDB.Lib.Compaction
import InventixDB.Lib.FirstMatch
import InventixDB.Server.Clients
import InventixDB.Server.SessionTable
import InventixDB.Server.Accounts
import InventixDB.Server.Authorization
import InventixDB.Executor.Indexes
import InventixDB.Executor.Targets
import InventixDB.Storage.Lz4
import InventixDB.Storage.PageCompression
import InventixDB.Lib.AvlTree
import InventixDB.Storage.Lsm
import InventixDB.Storage.LsmRefinement
import InventixDB.Storage.LsmSessions
import InventixDB.Lib.PagedFile
import InventixDB.Storage.BufferPool
import InventixDB.Storage.PoolRefinement
import InventixDB.Storage.TreeAgreement
import InventixDB.Executor.ResultSet
import InventixDB.Executor.Output
import InventixDB.Executor.Paging
import InventixDB.Executor.RowKeys
import InventixDB.Lib.ProbedSlots
import InventixDB.Executor.PrimaryKeys
import InventixDB.Executor.Generations
import InventixDB.Cluster.CommitIndex
import InventixDB.Server.Persistence
import InventixDB.Cluster.Ownership
import InventixDB.Cluster.Wire
import InventixDB.Executor.QueryCache
import InventixDB.Server.PlanCache
import InventixDB.Server.Distribution
import InventixDB.Sql.Progress
import InventixDB.Sql.Termination
import InventixDB.Lib.LinkedChain
import InventixDB.Storage.LeafPage
import InventixDB.Storage.SkipList
import InventixDB.Mvcc.LockBooks
import InventixDB.Storage.LogAgreement
import InventixDB.Storage.TornLog
import InventixDB.Lib.DoublyLinked
import InventixDB.Lib.Framing
import InventixDB.Network.AsyncReads
import InventixDB.Network.ConnectionPool
import InventixDB.Lib.JsonText
import InventixDB.Nosql.Documents
import InventixDB.Backup.Files
import InventixDB.Backup.CsvRoundTrip
import InventixDB.Backup.BinaryRoundTrip
import InventixDB.Storage.CompressorRoom
import InventixDB.Storage.Decoders
import InventixDB.Storage.MemtableRuns
import InventixDB.Mvcc.LockGrants
import InventixDB.Transaction.LogStructure
import InventixDB.Executor.AutoIds
import InventixDB.Storage.PageUpdates
import InventixDB.Lib.Phrases
import InventixDB.Sql.Phrases
import InventixDB.Sql.Conditions
import InventixDB.Sql.Crashes
import InventixDB.Server.Robustness
import InventixDB.Sql.Literals
import InventixDB.Server.Escaping
import InventixDB.Server.UsingClause
import InventixDB.Lib.ProbedErasures
import InventixDB.Executor.DropDatabase
import InventixDB.Sql.Printing
import InventixDB.Lib.GroupedFold
import InventixDB.Storage.ExactDouble
import InventixDB.Executor.Aggregates
import InventixDB.Lib.JsonValues
import InventixDB.Sql.Bodies
import InventixDB.Server.Normalization
import InventixDB.Executor.SortOrder
import InventixDB.Lib.CellList
import InventixDB.Executor.LinkedRows
import InventixDB.Executor.CacheMemory
import InventixDB.Storage.IndexKeys
import InventixDB.Cluster.Rebalancing
import InventixDB.Network.Messages
import InventixDB.Server.LoginThrottle
import InventixDB.Lib.Budget
import InventixDB.Server.Lockout
import InventixDB.Server.Identities
import InventixDB.Lib.Sha256
import InventixDB.Server.Hashing
import InventixDB.Lib.Pbkdf2
import InventixDB.Server.PasswordHash
import InventixDB.Server.TableFile
import InventixDB.Backup.Truncation
import InventixDB.Lib.Regions
import InventixDB.Memory.Arena
import InventixDB.Memory.ArenaAccounts
import InventixDB.Memory.ArenaSoundness
import InventixDB.Nosql.Writes
import InventixDB.Nosql.FieldUpdates
import InventixDB.Nosql.Matching
import InventixDB.Executor.Subqueries
import InventixDB.Lib.Bits
import InventixDB.Storage.Bloom
import InventixDB.Network.Backoff
import InventixDB.Server.Config
import InventixDB.Server.ConfigRoundTrip
import InventixDB.Server.Broadcast
import InventixDB.Server.RoutingBounds
import InventixDB.Memory.ArenaCheckpoints
import InventixDB.Lib.FreeLists
import InventixDB.Memory.Pool
import InventixDB.Memory.PoolSoundness
import InventixDB.Memory.Session
import InventixDB.Memory.QuotaBalance
import InventixDB.Lib.FlatMemory
import InventixDB.Memory.SafeMem
import InventixDB.Memory.SafeMemBooks
import InventixDB.Sql.Spans
import InventixDB.Sql.StatementEnds
import InventixDB.Sql.Acceptance
import InventixDB.Lib.Crc
import InventixDB.Lib.Window
import InventixDB.Cluster.WireDamage
import InventixDB.Nosql.Pipeline
import InventixDB.Nosql.Aggregation
import InventixDB.Lib.Chaining
import InventixDB.Server.Cipher
import InventixDB.Mvcc.TwoPhase
import InventixDB.Mvcc.Savepoints
