import InventixDB.Storage.CStr
import Mathlib.Data.Int.Order.Basic

/-!
# Config — the configuration and its file

The file is read line by line into sections of keys and values.  Each section has a chain of
comparisons for its keys, here a table whose first entry with the key counts.
-/

namespace InventixDB
namespace Server

open Storage

/-! ## Texts -/

/-- A piece of a line: no NUL, and no newline. -/
@[ext]
structure Text where
  bytes : List UInt8
  noNul : 0 ∉ bytes
  noNewline : 10 ∉ bytes
  deriving DecidableEq

/-- The string in a field of `size` bytes. -/
@[ext]
structure Field (size : Nat) extends Text where
  fits : bytes.length < size
  deriving DecidableEq

namespace Text

def cstr (t : Text) : CStr :=
  ⟨t.bytes, t.noNul⟩

/-- Some of the bytes of a text. -/
def restrict (t : Text) (bs : List UInt8) (hsub : ∀ b ∈ bs, b ∈ t.bytes) : Text where
  bytes := bs
  noNul := fun h => t.noNul (hsub 0 h)
  noNewline := fun h => t.noNewline (hsub 10 h)

/-- `strncpy(field, t, size - 1)`; the last byte of the field stays NUL. -/
def strncpy {size : Nat} (hsize : 0 < size) (t : Text) : Field size where
  toText := t.restrict (t.bytes.take (size - 1)) fun _ => List.mem_of_mem_take
  fits := by
    have hlen := List.length_take_le (size - 1) t.bytes
    exact Nat.lt_of_le_of_lt hlen (Nat.sub_lt hsize Nat.one_pos)

end Text

/-- A string constant of the source. -/
def Field.lit {size : Nat} (s : String)
    (hs : 10 ∉ (CStr.lit s).val ∧ (CStr.lit s).val.length < size := by decide) : Field size where
  bytes := (CStr.lit s).val
  noNul := (CStr.lit s).property
  noNewline := hs.1
  fits := hs.2

/-! ## The configuration -/

/-- `MAX_CONFIG_WORKERS` -/
abbrev maxConfigWorkers : Nat := 16

structure WorkerConfig where
  ip : Field 64
  port : Int32
  enabled : Bool
  name : Field 32
  deriving DecidableEq

structure StorageConfig where
  initialCapacity : Int32
  checkpointThresholdKb : Int32
  logFile : Field 256
  snapFile : Field 256
  dataDir : Field 256
  skipListMaxLevel : Int32
  enableAof : Bool
  enableSnapshots : Bool
  syncOnWrite : Bool
  deriving DecidableEq

structure StorageEngineConfig where
  engineType : Int32
  compressionType : Int32
  enableSlottedPages : Bool
  lsmMemtableSizeKb : Int32
  lsmLevelCount : Int32
  lsmCompactionThreshold : Int32
  columnChunkSize : Int32
  enableBloomFilter : Bool
  compressionThreshold : Int32
  autoCompact : Bool
  deriving DecidableEq

inductive EvictionPolicy
  | lru
  | clock
  | lfu
  deriving DecidableEq

structure BufferPoolConfig where
  poolSize : Int32
  pageSize : Int32
  prefetchEnabled : Bool
  evictionPolicy : EvictionPolicy
  deriving DecidableEq

structure NetworkConfig where
  serverPort : Int32
  maxConnections : Int32
  connectionTimeoutMs : Int32
  readBufferSize : Int32
  writeBufferSize : Int32
  enableTcpNodelay : Bool
  backlogSize : Int32
  deriving DecidableEq

inductive PartitionStrategy
  | hash
  | range
  deriving DecidableEq

structure DistributedConfig where
  isMaster : Bool
  workerCount : Int32
  workers : Fin maxConfigWorkers → WorkerConfig
  replicationFactor : Int32
  partitionStrategy : PartitionStrategy
  heartbeatIntervalMs : Int32
  workerTimeoutMs : Int32
  enableAutoFailover : Bool

inductive ReplicationMode
  | async
  | sync
  | syncAll
  deriving DecidableEq

structure ClusterSettings where
  nodeName : Field 64
  nodeId : Field 64
  clusterName : Field 64
  bindHost : Field 64
  bindPort : Int32
  advertiseHost : Field 64
  advertisePort : Int32
  seedNodes : Fin 8 → Field 128
  seedNodeCount : Nat
  electionTimeoutMinMs : Int32
  electionTimeoutMaxMs : Int32
  raftLogMaxEntries : Int32
  replicationFactor : Int32
  replicationMode : ReplicationMode
  minSyncReplicas : Int32
  partitionCount : Int32
  partitionStrategy : PartitionStrategy
  autoRebalance : Bool
  rebalanceThresholdPct : Int32
  heartbeatIntervalMs : Int32
  nodeTimeoutMs : Int32
  healthCheckIntervalMs : Int32
  maxClients : Int32
  clientTimeoutSec : Int32
  clusterEnabled : Bool

structure SecurityConfig where
  enableAuth : Bool
  defaultAdminUser : Field 64
  defaultAdminPass : Field 64
  passwordMinLength : Int32
  sessionTimeoutSec : Int32
  maxLoginAttempts : Int32
  lockoutDurationSec : Int32
  deriving DecidableEq

structure LoggingConfig where
  logLevel : Int32
  logFile : Field 256
  maxLogSizeMb : Int32
  logRotationCount : Int32
  enableQueryLogging : Bool
  enableSlowQueryLog : Bool
  slowQueryThresholdMs : Int32
  deriving DecidableEq

structure QueryConfig where
  maxResultRows : Int32
  queryTimeoutSec : Int32
  enableQueryCache : Bool
  queryCacheSizeMb : Int32
  maxMemoryPerQueryMb : Int32
  deriving DecidableEq

structure InventixConfig where
  configFile : CStr
  configLoaded : Bool
  storage : StorageConfig
  storageEngine : StorageEngineConfig
  bufferPool : BufferPoolConfig
  network : NetworkConfig
  distributed : DistributedConfig
  cluster : ClusterSettings
  security : SecurityConfig
  logging : LoggingConfig
  query : QueryConfig

/-! ## Defaults -/

def defaultWorkers (i : Fin maxConfigWorkers) : WorkerConfig :=
  if i = 0 then { ip := .lit "127.0.0.1", port := 8889, enabled := true, name := .lit "worker-1" }
  else if i = 1 then
    { ip := .lit "127.0.0.1", port := 8890, enabled := true, name := .lit "worker-2" }
  else { ip := .lit "", port := 0, enabled := false, name := .lit "" }

def defaultCluster : ClusterSettings where
  nodeName := .lit "node-1"
  nodeId := .lit ""
  clusterName := .lit "inventix-cluster"
  bindHost := .lit "0.0.0.0"
  bindPort := 9876
  advertiseHost := .lit "127.0.0.1"
  advertisePort := 9876
  seedNodes := fun _ => .lit ""
  seedNodeCount := 0
  electionTimeoutMinMs := 3000
  electionTimeoutMaxMs := 5000
  raftLogMaxEntries := 10000
  replicationFactor := 2
  replicationMode := .async
  minSyncReplicas := 1
  partitionCount := 16
  partitionStrategy := .hash
  autoRebalance := true
  rebalanceThresholdPct := 20
  heartbeatIntervalMs := 1000
  nodeTimeoutMs := 5000
  healthCheckIntervalMs := 2000
  maxClients := 1000
  clientTimeoutSec := 300
  clusterEnabled := false

/-- `config_init_defaults` -/
def configInitDefaults : InventixConfig where
  configFile := CStr.lit ""
  configLoaded := false
  storage :=
    { initialCapacity := 1024
      checkpointThresholdKb := 2048
      logFile := .lit "inventix.log"
      snapFile := .lit "inventix.snap"
      dataDir := .lit "./data"
      skipListMaxLevel := 6
      enableAof := true
      enableSnapshots := true
      syncOnWrite := false }
  storageEngine :=
    { engineType := 0
      compressionType := 0
      enableSlottedPages := true
      lsmMemtableSizeKb := 4096
      lsmLevelCount := 7
      lsmCompactionThreshold := 4
      columnChunkSize := 1024
      enableBloomFilter := true
      compressionThreshold := 512
      autoCompact := true }
  bufferPool :=
    { poolSize := 10
      pageSize := 4096
      prefetchEnabled := false
      evictionPolicy := .lru }
  network :=
    { serverPort := 8888
      maxConnections := 100
      connectionTimeoutMs := 30000
      readBufferSize := 4096
      writeBufferSize := 4096
      enableTcpNodelay := true
      backlogSize := 128 }
  distributed :=
    { isMaster := false
      workerCount := 2
      workers := defaultWorkers
      replicationFactor := 1
      partitionStrategy := .hash
      heartbeatIntervalMs := 5000
      workerTimeoutMs := 10000
      enableAutoFailover := false }
  cluster := defaultCluster
  security :=
    { enableAuth := true
      defaultAdminUser := .lit "admin"
      defaultAdminPass := .lit "admin"
      passwordMinLength := 6
      sessionTimeoutSec := 3600
      maxLoginAttempts := 5
      lockoutDurationSec := 300 }
  logging :=
    { logLevel := 1
      logFile := .lit "inventix_server.log"
      maxLogSizeMb := 100
      logRotationCount := 5
      enableQueryLogging := false
      enableSlowQueryLog := true
      slowQueryThresholdMs := 1000 }
  query :=
    { maxResultRows := 10000
      queryTimeoutSec := 60
      enableQueryCache := false
      queryCacheSizeMb := 64
      maxMemoryPerQueryMb := 128 }

/-! ## Reading values -/

/-- `atoi` -/
def Text.int (value : Text) : Int32 :=
  Int32.ofInt (CStr.atoi value.cstr)

/-- `parse_bool` -/
def parseBool (value : Text) : Bool :=
  let lower := (value.bytes.take 15).map CStr.lowerByte
  lower = (CStr.lit "true").val || lower = (CStr.lit "yes").val ||
    lower = (CStr.lit "1").val || lower = (CStr.lit "on").val

/-- `strcmp(t, s) == 0` -/
def Text.is (t : Text) (s : String) : Bool :=
  t.bytes = (CStr.lit s).val

/-- The first name that the value is, or else what there was. -/
def parseEnum {α : Type} (names : List (String × α)) (value : Text) (old : α) : α :=
  ((names.find? fun entry => value.is entry.1).map (·.2)).getD old

def evictionNames : List (String × EvictionPolicy) :=
  [("LRU", .lru), ("CLOCK", .clock), ("LFU", .lfu)]

def partitionNames : List (String × PartitionStrategy) :=
  [("HASH", .hash), ("RANGE", .range)]

def replicationNames : List (String × ReplicationMode) :=
  [("ASYNC", .async), ("SYNC", .sync), ("SYNC_ALL", .syncAll)]

def logLevelNames : List (String × Int32) :=
  [("DEBUG", 0), ("INFO", 1), ("WARN", 2), ("ERROR", 3)]

def engineNames : List (String × Int32) :=
  [("ROW_STORE", 0), ("COLUMN_STORE", 1), ("LSM_TREE", 2)]

def compressionNames : List (String × Int32) :=
  [("NONE", 0), ("LZ4", 1), ("RLE", 2)]

/-! ## The keys of the sections -/

/-- What the keys of a section do to it. -/
abbrev Keys (σ : Type) := List (String × (Text → σ → σ))

/-- The chain of comparisons of a section; an unknown key changes nothing. -/
def Keys.apply {σ : Type} (keys : Keys σ) (key : List UInt8) (value : Text) (sect : σ) : σ :=
  match keys.find? fun entry => key = (CStr.lit entry.1).val with
  | some entry => entry.2 value sect
  | none => sect

def storageKeys : Keys StorageConfig :=
  [("initial_capacity", fun v c => { c with initialCapacity := v.int }),
    ("checkpoint_threshold_kb", fun v c => { c with checkpointThresholdKb := v.int }),
    ("log_file", fun v c => { c with logFile := v.strncpy (by decide) }),
    ("snap_file", fun v c => { c with snapFile := v.strncpy (by decide) }),
    ("data_dir", fun v c => { c with dataDir := v.strncpy (by decide) }),
    ("skip_list_max_level", fun v c => { c with skipListMaxLevel := v.int }),
    ("enable_aof", fun v c => { c with enableAof := parseBool v }),
    ("enable_snapshots", fun v c => { c with enableSnapshots := parseBool v }),
    ("sync_on_write", fun v c => { c with syncOnWrite := parseBool v })]

def bufferPoolKeys : Keys BufferPoolConfig :=
  [("pool_size", fun v c => { c with poolSize := v.int }),
    ("page_size", fun v c => { c with pageSize := v.int }),
    ("prefetch_enabled", fun v c => { c with prefetchEnabled := parseBool v }),
    ("eviction_policy", fun v c =>
      { c with evictionPolicy := parseEnum evictionNames v c.evictionPolicy })]

def networkKeys : Keys NetworkConfig :=
  [("server_port", fun v c => { c with serverPort := v.int }),
    ("max_connections", fun v c => { c with maxConnections := v.int }),
    ("connection_timeout_ms", fun v c => { c with connectionTimeoutMs := v.int }),
    ("read_buffer_size", fun v c => { c with readBufferSize := v.int }),
    ("write_buffer_size", fun v c => { c with writeBufferSize := v.int }),
    ("enable_tcp_nodelay", fun v c => { c with enableTcpNodelay := parseBool v }),
    ("backlog_size", fun v c => { c with backlogSize := v.int })]

def distributedKeys : Keys DistributedConfig :=
  [("is_master", fun v c => { c with isMaster := parseBool v }),
    ("worker_count", fun v c => { c with workerCount := v.int }),
    ("replication_factor", fun v c => { c with replicationFactor := v.int }),
    ("partition_strategy", fun v c =>
      { c with partitionStrategy := parseEnum partitionNames v c.partitionStrategy }),
    ("heartbeat_interval_ms", fun v c => { c with heartbeatIntervalMs := v.int }),
    ("worker_timeout_ms", fun v c => { c with workerTimeoutMs := v.int }),
    ("enable_auto_failover", fun v c => { c with enableAutoFailover := parseBool v })]

def clusterKeys : Keys ClusterSettings :=
  [("enabled", fun v c => { c with clusterEnabled := parseBool v }),
    ("node_name", fun v c => { c with nodeName := v.strncpy (by decide) }),
    ("node_id", fun v c => { c with nodeId := v.strncpy (by decide) }),
    ("cluster_name", fun v c => { c with clusterName := v.strncpy (by decide) }),
    ("bind_host", fun v c => { c with bindHost := v.strncpy (by decide) }),
    ("bind_port", fun v c => { c with bindPort := v.int }),
    ("advertise_host", fun v c => { c with advertiseHost := v.strncpy (by decide) }),
    ("advertise_port", fun v c => { c with advertisePort := v.int }),
    ("election_timeout_min_ms", fun v c => { c with electionTimeoutMinMs := v.int }),
    ("election_timeout_max_ms", fun v c => { c with electionTimeoutMaxMs := v.int }),
    ("raft_log_max_entries", fun v c => { c with raftLogMaxEntries := v.int }),
    ("replication_factor", fun v c => { c with replicationFactor := v.int }),
    ("replication_mode", fun v c =>
      { c with replicationMode := parseEnum replicationNames v c.replicationMode }),
    ("min_sync_replicas", fun v c => { c with minSyncReplicas := v.int }),
    ("partition_count", fun v c => { c with partitionCount := v.int }),
    ("partition_strategy", fun v c =>
      { c with partitionStrategy := parseEnum partitionNames v c.partitionStrategy }),
    ("auto_rebalance", fun v c => { c with autoRebalance := parseBool v }),
    ("rebalance_threshold_pct", fun v c => { c with rebalanceThresholdPct := v.int }),
    ("heartbeat_interval_ms", fun v c => { c with heartbeatIntervalMs := v.int }),
    ("node_timeout_ms", fun v c => { c with nodeTimeoutMs := v.int }),
    ("health_check_interval_ms", fun v c => { c with healthCheckIntervalMs := v.int }),
    ("max_clients", fun v c => { c with maxClients := v.int }),
    ("client_timeout_sec", fun v c => { c with clientTimeoutSec := v.int })]

def seedKeys (idx : Fin 8) : Keys ClusterSettings :=
  [("address", fun v c =>
    { c with
      seedNodes := Function.update c.seedNodes idx (v.strncpy (by decide))
      seedNodeCount := if c.seedNodeCount ≤ idx then idx + 1 else c.seedNodeCount })]

def workerKeys : Keys WorkerConfig :=
  [("ip", fun v c => { c with ip := v.strncpy (by decide) }),
    ("port", fun v c => { c with port := v.int }),
    ("enabled", fun v c => { c with enabled := parseBool v }),
    ("name", fun v c => { c with name := v.strncpy (by decide) })]

def securityKeys : Keys SecurityConfig :=
  [("enable_auth", fun v c => { c with enableAuth := parseBool v }),
    ("default_admin_user", fun v c => { c with defaultAdminUser := v.strncpy (by decide) }),
    ("default_admin_pass", fun v c => { c with defaultAdminPass := v.strncpy (by decide) }),
    ("password_min_length", fun v c => { c with passwordMinLength := v.int }),
    ("session_timeout_sec", fun v c => { c with sessionTimeoutSec := v.int }),
    ("max_login_attempts", fun v c => { c with maxLoginAttempts := v.int }),
    ("lockout_duration_sec", fun v c => { c with lockoutDurationSec := v.int })]

def loggingKeys : Keys LoggingConfig :=
  [("log_level", fun v c => { c with logLevel := parseEnum logLevelNames v v.int }),
    ("log_file", fun v c => { c with logFile := v.strncpy (by decide) }),
    ("max_log_size_mb", fun v c => { c with maxLogSizeMb := v.int }),
    ("log_rotation_count", fun v c => { c with logRotationCount := v.int }),
    ("enable_query_logging", fun v c => { c with enableQueryLogging := parseBool v }),
    ("enable_slow_query_log", fun v c => { c with enableSlowQueryLog := parseBool v }),
    ("slow_query_threshold_ms", fun v c => { c with slowQueryThresholdMs := v.int })]

def queryKeys : Keys QueryConfig :=
  [("max_result_rows", fun v c => { c with maxResultRows := v.int }),
    ("query_timeout_sec", fun v c => { c with queryTimeoutSec := v.int }),
    ("enable_query_cache", fun v c => { c with enableQueryCache := parseBool v }),
    ("query_cache_size_mb", fun v c => { c with queryCacheSizeMb := v.int }),
    ("max_memory_per_query_mb", fun v c => { c with maxMemoryPerQueryMb := v.int })]

def storageEngineKeys : Keys StorageEngineConfig :=
  [("engine_type", fun v c => { c with engineType := parseEnum engineNames v v.int }),
    ("compression_type", fun v c =>
      { c with compressionType := parseEnum compressionNames v v.int }),
    ("enable_slotted_pages", fun v c => { c with enableSlottedPages := parseBool v }),
    ("lsm_memtable_size_kb", fun v c => { c with lsmMemtableSizeKb := v.int }),
    ("lsm_level_count", fun v c => { c with lsmLevelCount := v.int }),
    ("lsm_compaction_threshold", fun v c => { c with lsmCompactionThreshold := v.int }),
    ("column_chunk_size", fun v c => { c with columnChunkSize := v.int }),
    ("enable_bloom_filter", fun v c => { c with enableBloomFilter := parseBool v }),
    ("compression_threshold", fun v c => { c with compressionThreshold := v.int }),
    ("auto_compact", fun v c => { c with autoCompact := parseBool v })]

/-- `atoi` of what stands behind the first `skip` bytes of a section, as an index below `n`. -/
def sectionIndex (n skip : Nat) (sect : CStr) : Option (Fin n) :=
  let idx := CStr.atoi (CStr.ofBytes (sect.val.drop skip))
  if h : 0 ≤ idx ∧ idx < n then some ⟨idx.toNat, by omega⟩ else none

/-- `parse_config_line` -/
def parseConfigLine (config : InventixConfig) (sect : CStr) (key : List UInt8) (value : Text) :
    InventixConfig :=
  if sect = CStr.lit "storage" then
    { config with storage := storageKeys.apply key value config.storage }
  else if sect = CStr.lit "buffer_pool" then
    { config with bufferPool := bufferPoolKeys.apply key value config.bufferPool }
  else if sect = CStr.lit "network" then
    { config with network := networkKeys.apply key value config.network }
  else if sect = CStr.lit "distributed" then
    { config with distributed := distributedKeys.apply key value config.distributed }
  else if sect = CStr.lit "cluster" then
    { config with cluster := clusterKeys.apply key value config.cluster }
  else if CStr.startsWith (CStr.lit "seed.") sect then
    match sectionIndex 8 5 sect with
    | some idx => { config with cluster := (seedKeys idx).apply key value config.cluster }
    | none => config
  else if CStr.startsWith (CStr.lit "worker.") sect then
    match sectionIndex maxConfigWorkers 7 sect with
    | some idx =>
        let worker := workerKeys.apply key value (config.distributed.workers idx)
        let workers := Function.update config.distributed.workers idx worker
        { config with distributed := { config.distributed with workers := workers } }
    | none => config
  else if sect = CStr.lit "security" then
    { config with security := securityKeys.apply key value config.security }
  else if sect = CStr.lit "logging" then
    { config with logging := loggingKeys.apply key value config.logging }
  else if sect = CStr.lit "query" then
    { config with query := queryKeys.apply key value config.query }
  else if sect = CStr.lit "storage_engine" then
    { config with storageEngine := storageEngineKeys.apply key value config.storageEngine }
  else config

/-! ## Lines -/

/-- What `fgets` leaves in its buffer: a newline can only be the last byte. -/
abbrev RawLine := { bs : List UInt8 // 10 ∉ bs.dropLast }

/-- The bytes up to and including the first newline, `room` at most. -/
def lineLength (room : Nat) (bs : List UInt8) : Nat :=
  min room ((bs.takeWhile (· ≠ 10)).length + 1)

theorem notMem_dropLast_take (room : Nat) (bs : List UInt8) :
    10 ∉ (bs.take (lineLength room bs)).dropLast := by
  have hbefore : 10 ∉ bs.takeWhile (· ≠ 10) := fun hmem => by
    simpa using List.mem_takeWhile_imp hmem
  have hle : (bs.take (lineLength room bs)).length - 1 ≤ (bs.takeWhile (· ≠ 10)).length := by
    rw [List.length_take, lineLength]
    omega
  intro hmem
  rw [List.dropLast_eq_take, List.take_take] at hmem
  obtain ⟨rest, hrest⟩ : bs.takeWhile (· ≠ 10) <+: bs := List.takeWhile_prefix _
  rw [← hrest, List.take_append_of_le_length (by rw [hrest]; omega)] at hmem
  exact hbefore (List.mem_of_mem_take hmem)

/-- `fgets` into `size` bytes. -/
def fgets (size : Nat) (bs : List UInt8) : Option (RawLine × List UInt8) :=
  if bs = [] then none
  else
    let len := lineLength (size - 1) bs
    some (⟨bs.take len, notMem_dropLast_take _ bs⟩, bs.drop len)

/-- The lines of a file; `fuel` bounds their number. -/
def readLines : Nat → List UInt8 → List RawLine
  | 0, _ => []
  | fuel + 1, bs =>
      match fgets 512 bs with
      | none => []
      | some (line, rest) => line :: readLines fuel rest

/-- The bytes between the white space at both ends. -/
def trimBytes (bs : List UInt8) : List UInt8 :=
  ((bs.dropWhile CStr.isSpace).reverse.dropWhile CStr.isSpace).reverse

theorem mem_of_mem_trimBytes {bs : List UInt8} {b : UInt8} (hb : b ∈ trimBytes bs) : b ∈ bs := by
  have hrev := (List.dropWhile_sublist _).subset (List.mem_reverse.mp hb)
  exact (List.dropWhile_sublist _).subset (List.mem_reverse.mp hrev)

/-- A newline at the end is trimmed away. -/
theorem newline_notMem_trimBytes {bs : List UInt8} (hbs : 10 ∉ bs.dropLast) :
    10 ∉ trimBytes bs := by
  obtain ⟨cut, hcut⟩ := List.dropWhile_suffix CStr.isSpace (l := bs)
  generalize hstart : bs.dropWhile CStr.isSpace = text at hcut
  have htext : 10 ∉ text.dropLast := by
    intro hmem
    have hne : text ≠ [] := fun hnil => by simp [hnil] at hmem
    refine hbs ?_
    rw [← hcut, List.dropLast_append_of_ne_nil hne]
    exact List.mem_append_right _ hmem
  intro hmem
  rw [trimBytes, hstart, List.mem_reverse] at hmem
  obtain ⟨cut', hcut'⟩ := List.dropWhile_suffix CStr.isSpace (l := text.reverse)
  cases hkept : text.reverse.dropWhile CStr.isSpace with
  | nil =>
      rw [hkept] at hmem
      cases hmem
  | cons c kept =>
      rw [hkept] at hmem hcut'
      have hc : CStr.isSpace c = false := by
        have hhead := List.head?_dropWhile_not CStr.isSpace text.reverse
        rw [hkept] at hhead
        simpa using hhead
      rcases List.mem_cons.mp hmem with rfl | hmem
      · cases hc
      · -- behind the last byte that is kept stands no newline
        refine htext ?_
        rw [← List.mem_reverse, ← List.tail_reverse, ← hcut']
        cases cut' with
        | nil => exact hmem
        | cons d cut' => exact List.mem_append_right _ (List.mem_cons_of_mem c hmem)

/-- `trim_whitespace` -/
def Text.trimWhitespace (t : Text) : Text :=
  t.restrict (trimBytes t.bytes) fun _ => mem_of_mem_trimBytes

theorem newline_notMem_dropLast_takeWhile {bs : List UInt8} (hbs : 10 ∉ bs.dropLast)
    (p : UInt8 → Bool) : 10 ∉ (bs.takeWhile p).dropLast := by
  obtain ⟨rest, hrest⟩ := List.takeWhile_prefix p (l := bs)
  intro hmem
  refine hbs ?_
  rw [← hrest]
  cases rest with
  | nil =>
      rw [List.append_nil]
      exact hmem
  | cons c rest =>
      rw [List.dropLast_append_of_ne_nil (List.cons_ne_nil c rest)]
      exact List.mem_append_left _ (List.dropLast_subset _ hmem)

/-- `trim_whitespace` of a line that was just read. -/
def RawLine.trimWhitespace (line : RawLine) : Text where
  bytes := trimBytes (CStr.ofBytes line.val).val
  noNul := fun h => (CStr.ofBytes line.val).property (mem_of_mem_trimBytes h)
  noNewline := newline_notMem_trimBytes (newline_notMem_dropLast_takeWhile line.property _)

/-- The quotes at both ends of a value are removed. -/
def Text.unquote (value : Text) : Text :=
  match value.bytes.head? with
  | some c =>
      if c = 34 ∨ c = 39 then
        let rest := value.bytes.tail
        if rest.getLast? = some 34 ∨ rest.getLast? = some 39 then
          value.restrict rest.dropLast fun _ hb => List.mem_of_mem_tail (List.dropLast_subset _ hb)
        else value.restrict rest fun _ => List.mem_of_mem_tail
      else value
  | none => value

/-- `config_load` between two lines. -/
structure Loading where
  currentSection : CStr
  config : InventixConfig

/-- What stands before the first `=`. -/
def Text.beforeEquals (line : Text) : Text :=
  line.restrict (line.bytes.takeWhile (· ≠ 61)) fun _ hb => (List.takeWhile_sublist _).subset hb

/-- What stands behind the first `=`. -/
def Text.behindEquals (line : Text) : Text :=
  line.restrict ((line.bytes.dropWhile (· ≠ 61)).drop 1) fun _ hb =>
    (List.dropWhile_sublist _).subset (List.mem_of_mem_drop hb)

/-- The loop of `config_load` on a line without the white space around it. -/
def Loading.readText (l : Loading) (line : Text) : Loading :=
  match line.bytes with
  | [] => l
  | first :: rest =>
      if first = 35 ∨ first = 59 then l
      else if first = 91 then
        -- a header without its bracket is passed over
        match CStr.breakAt 93 (CStr.ofBytes rest) with
        | some (name, _) =>
            { l with currentSection := CStr.ofBytes ((name.val.take 63).map CStr.lowerByte) }
        | none => l
      else if 61 ∈ line.bytes then
        let key := line.beforeEquals.trimWhitespace.bytes.map CStr.lowerByte
        let value := line.behindEquals.trimWhitespace.unquote
        { l with config := parseConfigLine l.config l.currentSection key value }
      else l

/-- One round of the loop of `config_load`. -/
def Loading.readLine (l : Loading) (raw : RawLine) : Loading :=
  l.readText raw.trimWhitespace

/-- `config_load` of a file that can be opened. -/
def configLoad (filepath : CStr) (file : List UInt8) : InventixConfig :=
  let start := { configInitDefaults with configFile := CStr.ofBytes (filepath.val.take 255) }
  let loading := (readLines file.length file).foldl Loading.readLine
    { currentSection := CStr.lit "global", config := start }
  { loading.config with configLoaded := true }

/-! ## Saving -/

/-- What stands behind a key. -/
inductive Saved
  | int (i : Int32)
  | quoted (t : Text)
  | bool (b : Bool)
  | word (s : String)

def Saved.bytes : Saved → List UInt8
  | .int i => (CStr.ofInt i.toInt).val
  | .quoted t => [34] ++ t.bytes ++ [34]
  | .bool b => (CStr.lit (if b then "true" else "false")).val
  | .word s => (CStr.lit s).val

inductive ConfigLine
  | comment (text : String)
  | blank
  | header (name : CStr)
  | setting (key : String) (value : Saved)

def ConfigLine.bytes : ConfigLine → List UInt8
  | .comment text => (CStr.lit text).val
  | .blank => []
  | .header name => [91] ++ name.val ++ [93]
  | .setting key value => (CStr.lit key).val ++ (CStr.lit " = ").val ++ value.bytes

def evictionName : EvictionPolicy → String
  | .lru => "LRU"
  | .clock => "CLOCK"
  | .lfu => "LFU"

def partitionName : PartitionStrategy → String
  | .hash => "HASH"
  | .range => "RANGE"

/-- `log_levels[log_level % 4]`; a negative index is outside the array. -/
def logLevelName (logLevel : Int32) : Option String :=
  let idx := logLevel.toInt.tmod 4
  if 0 ≤ idx then ["DEBUG", "INFO", "WARN", "ERROR"][idx.toNat]? else none

def storageLines (c : StorageConfig) : List ConfigLine :=
  [.header (.lit "storage"),
    .setting "initial_capacity" (.int c.initialCapacity),
    .setting "checkpoint_threshold_kb" (.int c.checkpointThresholdKb),
    .setting "log_file" (.quoted c.logFile.toText),
    .setting "snap_file" (.quoted c.snapFile.toText),
    .setting "data_dir" (.quoted c.dataDir.toText),
    .setting "skip_list_max_level" (.int c.skipListMaxLevel),
    .setting "enable_aof" (.bool c.enableAof),
    .setting "enable_snapshots" (.bool c.enableSnapshots),
    .setting "sync_on_write" (.bool c.syncOnWrite),
    .blank]

def bufferPoolLines (c : BufferPoolConfig) : List ConfigLine :=
  [.header (.lit "buffer_pool"),
    .setting "pool_size" (.int c.poolSize),
    .setting "page_size" (.int c.pageSize),
    .setting "prefetch_enabled" (.bool c.prefetchEnabled),
    .setting "eviction_policy" (.word (evictionName c.evictionPolicy)),
    .blank]

def networkLines (c : NetworkConfig) : List ConfigLine :=
  [.header (.lit "network"),
    .setting "server_port" (.int c.serverPort),
    .setting "max_connections" (.int c.maxConnections),
    .setting "connection_timeout_ms" (.int c.connectionTimeoutMs),
    .setting "read_buffer_size" (.int c.readBufferSize),
    .setting "write_buffer_size" (.int c.writeBufferSize),
    .setting "enable_tcp_nodelay" (.bool c.enableTcpNodelay),
    .setting "backlog_size" (.int c.backlogSize),
    .blank]

def distributedLines (c : DistributedConfig) : List ConfigLine :=
  [.header (.lit "distributed"),
    .setting "is_master" (.bool c.isMaster),
    .setting "worker_count" (.int c.workerCount),
    .setting "replication_factor" (.int c.replicationFactor),
    .setting "partition_strategy" (.word (partitionName c.partitionStrategy)),
    .setting "heartbeat_interval_ms" (.int c.heartbeatIntervalMs),
    .setting "worker_timeout_ms" (.int c.workerTimeoutMs),
    .setting "enable_auto_failover" (.bool c.enableAutoFailover),
    .blank]

/-- The section of worker `i`, `worker.%d`. -/
def workerSection (i : Fin maxConfigWorkers) : CStr :=
  CStr.lit "worker." ++ CStr.ofInt i.val

def workerLines (c : DistributedConfig) (i : Fin maxConfigWorkers) : List ConfigLine :=
  [.header (workerSection i),
    .setting "ip" (.quoted (c.workers i).ip.toText),
    .setting "port" (.int (c.workers i).port),
    .setting "enabled" (.bool (c.workers i).enabled),
    .setting "name" (.quoted (c.workers i).name.toText),
    .blank]

/-- The workers the loop of `config_save` reaches. -/
def savedWorkers (c : DistributedConfig) : List (Fin maxConfigWorkers) :=
  (List.finRange maxConfigWorkers).filter fun i => (i.val : Int) < c.workerCount.toInt

def securityLines (c : SecurityConfig) : List ConfigLine :=
  [.header (.lit "security"),
    .setting "enable_auth" (.bool c.enableAuth),
    .setting "default_admin_user" (.quoted c.defaultAdminUser.toText),
    .comment "# default_admin_pass = \"****\" # Hidden for security",
    .setting "password_min_length" (.int c.passwordMinLength),
    .setting "session_timeout_sec" (.int c.sessionTimeoutSec),
    .setting "max_login_attempts" (.int c.maxLoginAttempts),
    .setting "lockout_duration_sec" (.int c.lockoutDurationSec),
    .blank]

def loggingLines (c : LoggingConfig) (logLevel : String) : List ConfigLine :=
  [.header (.lit "logging"),
    .setting "log_level" (.word logLevel),
    .setting "log_file" (.quoted c.logFile.toText),
    .setting "max_log_size_mb" (.int c.maxLogSizeMb),
    .setting "log_rotation_count" (.int c.logRotationCount),
    .setting "enable_query_logging" (.bool c.enableQueryLogging),
    .setting "enable_slow_query_log" (.bool c.enableSlowQueryLog),
    .setting "slow_query_threshold_ms" (.int c.slowQueryThresholdMs),
    .blank]

def queryLines (c : QueryConfig) : List ConfigLine :=
  [.header (.lit "query"),
    .setting "max_result_rows" (.int c.maxResultRows),
    .setting "query_timeout_sec" (.int c.queryTimeoutSec),
    .setting "enable_query_cache" (.bool c.enableQueryCache),
    .setting "query_cache_size_mb" (.int c.queryCacheSizeMb),
    .setting "max_memory_per_query_mb" (.int c.maxMemoryPerQueryMb)]

def ruler : String :=
  "# ============================================================================"

def titleLines : List ConfigLine :=
  [.comment ruler, .comment "# InventixDB Configuration File",
    .comment "# Generated automatically - Edit with care", .comment ruler, .blank]

/-- The lines `config_save` writes; `none` is undefined. -/
def configLines (config : InventixConfig) : Option (List ConfigLine) :=
  (logLevelName config.logging.logLevel).map fun logLevel =>
    titleLines ++ storageLines config.storage ++ bufferPoolLines config.bufferPool ++
      networkLines config.network ++ distributedLines config.distributed ++
      (savedWorkers config.distributed).flatMap (workerLines config.distributed) ++
      securityLines config.security ++ loggingLines config.logging logLevel ++
      queryLines config.query

/-- `config_save` to a file that can be written: what the file holds. -/
def configSave (config : InventixConfig) : Option (List UInt8) :=
  (configLines config).map fun lines => lines.flatMap fun line => line.bytes ++ [10]

/-! ## Validation -/

/-- `config_validate`; a password length below 1 is only warned about. -/
def configValidate (config : InventixConfig) : Bool :=
  ¬ (config.storage.initialCapacity < 16) &&
  ¬ (config.bufferPool.poolSize < 2) &&
  ¬ (config.bufferPool.pageSize < 512) &&
  ¬ (config.network.serverPort < 1 ∨ config.network.serverPort > 65535) &&
  ¬ (config.network.maxConnections < 1) &&
  ¬ (config.distributed.workerCount < 0 ∨ config.distributed.workerCount > 16)

end Server
end InventixDB
