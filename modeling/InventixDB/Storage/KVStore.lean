import InventixDB.Lib.ByteCodec
import InventixDB.Lib.ProbedRun
import InventixDB.Storage.BTree
import InventixDB.Storage.CStr

/-!
# KVStore — the hash store, its log and its snapshots

The store keeps its entries in an open-addressing table and its history in two files: the
snapshot (all entries of some moment) and the log (one record for each later change).  A
checkpoint rewrites both as a sequence of file operations (`snapshotOps`), so that a process may
stop between any two of them.  Log files always open; whether the temporary snapshot file does
is a property of the disk (`tmpOpens`).
-/

namespace InventixDB
namespace Storage

open Lib.OpenAddressing
open Lib.ByteCodec

/-! ## Values and indexes -/

inductive ValueType
  | row
  | json
  | schema
  deriving DecidableEq, Repr

def ValueType.toNat : ValueType → Nat
  | .row => 0
  | .json => 1
  | .schema => 2

def ValueType.ofNat? : Nat → Option ValueType
  | 0 => some .row
  | 1 => some .json
  | 2 => some .schema
  | _ => none

structure Value where
  data : List UInt8
  type : ValueType
  deriving DecidableEq, Repr

/-- An index, by the bottom level of its skip list. -/
structure Index where
  table : CStr
  column : CStr
  nodes : List (CStr × CStr)
  deriving DecidableEq

/-- The new node goes in front of the first one whose value is not below `val`. -/
def kvAddToIndex (idx : Index) (val pk : CStr) : Index :=
  let below := idx.nodes.takeWhile fun node => node.1.val < val.val
  { idx with nodes := below ++ (val, pk) :: idx.nodes.drop below.length }

/-! ## Files -/

/-- The files of the store; `none` is a file that does not exist. -/
structure Disk where
  snap : Option (List UInt8)
  snapTmp : Option (List UInt8)
  log : Option (List UInt8)
  tmpOpens : Bool
  deriving DecidableEq, Repr

/-- The file operations of a checkpoint. -/
inductive FileOp
  | createTmp
  | writeTmp (bs : List UInt8)
  | removeSnap
  | renameTmp
  | truncateLog
  deriving DecidableEq, Repr

def FileOp.run (disk : Disk) : FileOp → Disk
  | .createTmp => { disk with snapTmp := some [] }
  | .writeTmp bs => { disk with snapTmp := disk.snapTmp.map (· ++ bs) }
  | .removeSnap => { disk with snap := none }
  | .renameTmp =>
      match disk.snapTmp with
      | some bs => { disk with snap := some bs, snapTmp := none }
      | none => disk
  | .truncateLog => { disk with log := some [] }

def Disk.appendLog (disk : Disk) (bs : List UInt8) : Disk :=
  { disk with log := some (disk.log.getD [] ++ bs) }

/-! ## The store -/

structure KVStore (n : Nat) where
  entries : Table CStr Value n
  /-- `log_fp` is not `NULL` -/
  logFp : Bool
  logSize : Nat
  checkpointThreshold : Int
  indexes : List Index
  btreeTable : BTreeTable
  disk : Disk
  /-- `capacity` is an `int`. -/
  capacity_int : n < 2 ^ 31

variable {n : Nat} [NeZero n]

/-! ## Records -/

/-- A log record: what was put under a key, or that the key was deleted. -/
abbrev LogRecord := Op CStr Value

def encodeKey (key : CStr) : List UInt8 :=
  leBytes 4 key.length ++ key.val

def encodeValue (val : Value) : List UInt8 :=
  leBytes 8 val.data.length ++ leBytes 4 val.type.toNat ++ val.data

/-- The bytes `kv_append_log` writes. -/
def encodeRecord : LogRecord → List UInt8
  | .put key val => 1 :: (encodeKey key ++ encodeValue val)
  | .del key => 2 :: encodeKey key

def encodeLog (recs : List LogRecord) : List UInt8 :=
  recs.flatMap encodeRecord

/-- The operations that write the temporary file, one for each `fopen` and `fwrite`. -/
def tmpOps (store : KVStore n) : List FileOp :=
  let live := toList store.entries
  .createTmp :: .writeTmp (leBytes 4 live.length) ::
    live.flatMap fun e =>
      [.writeTmp (leBytes 4 e.1.length), .writeTmp e.1.val,
        .writeTmp (leBytes 8 e.2.data.length), .writeTmp (leBytes 4 e.2.type.toNat),
        .writeTmp e.2.data]

/-- The file operations of `kv_snapshot_internal`, in order. -/
def snapshotOps (store : KVStore n) : List FileOp :=
  tmpOps store ++ [.removeSnap, .renameTmp, .truncateLog]

/-! ## Operations -/

/-- A temporary file that does not open leaves the log closed. -/
def kvSnapshotInternal (store : KVStore n) : KVStore n :=
  if store.disk.tmpOpens then
    { store with
      logFp := true
      logSize := 0
      disk := (snapshotOps store).foldl FileOp.run store.disk }
  else { store with logFp := false }

def kvSnapshot (store : KVStore n) : KVStore n :=
  kvSnapshotInternal store

/-- `log_size` grows by what is written, and passing the threshold takes a checkpoint. -/
def kvAppendLog (store : KVStore n) (record : LogRecord) : KVStore n :=
  if store.logFp then
    let bs := encodeRecord record
    let logged : KVStore n :=
      { store with logSize := store.logSize + bs.length, disk := store.disk.appendLog bs }
    if logged.logSize > logged.checkpointThreshold then kvSnapshotInternal logged else logged
  else store

def kvPutInternal (store : KVStore n) (key : CStr) (val : Value) : KVStore n :=
  { store with entries := insert CStr.slot store.entries key val }

/-- The copy of a `TBL:<table>:<id>` row that `kv_put` puts into the tree. -/
def btreePut (table : BTreeTable) (key : CStr) (val : Value) : BTreeTable :=
  if val.type = .row && CStr.startsWith (CStr.lit "TBL:") key then
    match CStr.afterLast 58 key with
    | some tail =>
        let id := UInt32.ofInt (CStr.atoi tail)
        if id > 0 then leafNodeInsert table (tableFind table id) id (rowBuffer val.data)
        else table
    | none => table
  else table

def kvPut (store : KVStore n) (key : CStr) (val : Value) : KVStore n :=
  let store := { store with btreeTable := btreePut store.btreeTable key val }
  kvAppendLog (kvPutInternal store key val) (.put key val)

def kvGet (store : KVStore n) (key : CStr) : Option Value :=
  lookup CStr.slot store.entries key

/-- The slot is only marked free, and only a delete that finds its key is logged. -/
def kvDelete (store : KVStore n) (key : CStr) : KVStore n :=
  match probe CStr.slot store.entries key with
  | .hit i => kvAppendLog { store with entries := Function.update store.entries i none } (.del key)
  | _ => store

def kvIterate {σ : Type*} (store : KVStore n) (callback : CStr → Value → σ → σ) (ctx : σ) : σ :=
  (List.finRange n).foldl
    (fun ctx i =>
      match store.entries i with
      | some e => callback e.1 e.2 ctx
      | none => ctx) ctx

/-- Add the row's `column:value;` text to every index of the table. -/
def kvUpdateIndexes (store : KVStore n) (table pk rowStr : CStr) : KVStore n :=
  { store with
    indexes := store.indexes.map fun idx =>
      if idx.table = table then
        (CStr.tokens 59 rowStr).foldl
          (fun idx tok =>
            match CStr.breakAt 58 tok with
            | some (column, val) => if column = idx.column then kvAddToIndex idx val pk else idx
            | none => idx) idx
      else idx }

/-! ## Recovery -/

/-- The key behind a length field; a negative length is not read. -/
def readKey (klen : Nat) (bs : List UInt8) : Option (CStr × List UInt8) :=
  if klen < 2 ^ 31 then
    (readExact klen bs).map fun r => (CStr.ofBytes r.1, r.2)
  else none

def readValue (bs : List UInt8) : Option (Value × List UInt8) :=
  match readLE 8 bs with
  | none => none
  | some (size, bs) =>
      match readLE 4 bs with
      | none => none
      | some (vtype, bs) =>
          match ValueType.ofNat? vtype, readExact size bs with
          | some type, some (data, bs) => some ({ data := data, type := type }, bs)
          | _, _ => none

/-- The snapshot loop; it gives up (`none`) where the source goes on with bytes not read. -/
def loadEntries : Nat → List UInt8 → Table CStr Value n → Option (Table CStr Value n)
  | 0, _, entries => some entries
  | count + 1, bs, entries =>
      match readLE 4 bs with
      | none => none
      | some (klen, bs) =>
          match readKey klen bs with
          | none => none
          | some (key, bs) =>
              match readValue bs with
              | none => none
              | some (val, bs) => loadEntries count bs (insert CStr.slot entries key val)

/-- A missing snapshot, or one without a count, loads nothing; so does a negative count. -/
def loadSnapshot (snap : Option (List UInt8)) (entries : Table CStr Value n) :
    Option (Table CStr Value n) :=
  match snap with
  | none => some entries
  | some bs =>
      match readLE 4 bs with
      | none => some entries
      | some (count, bs) => loadEntries (if count < 2 ^ 31 then count else 0) bs entries

/-- The log loop: it ends at the end of the file, or where a record has no length. -/
def replayLog : Nat → List UInt8 → Table CStr Value n → Option (Table CStr Value n)
  | 0, _, entries => some entries
  | _ + 1, [], entries => some entries
  | fuel + 1, op :: bs, entries =>
      match readLE 4 bs with
      | none => some entries
      | some (klen, bs) =>
          match readKey klen bs with
          | none => none
          | some (key, bs) =>
              if op = 1 then
                match readValue bs with
                | none => none
                | some (val, bs) => replayLog fuel bs (insert CStr.slot entries key val)
              else if op = 2 then replayLog fuel bs (erase CStr.slot entries key)
              else replayLog fuel bs entries

/-- The snapshot, then the log on top of it. -/
def kvRecover (store : KVStore n) : Option (KVStore n) :=
  match loadSnapshot store.disk.snap store.entries with
  | none => none
  | some entries =>
      let bs := store.disk.log.getD []
      (replayLog bs.length bs entries).map fun entries => { store with entries := entries }

/-- The empty store of `kv_create`, before it recovers anything. -/
def kvEmpty (hn : n < 2 ^ 31) (threshold : Int) (btreeTable : BTreeTable) (disk : Disk) :
    KVStore n where
  entries := empty
  logFp := false
  logSize := 0
  checkpointThreshold := threshold
  indexes := []
  btreeTable := btreeTable
  disk := disk
  capacity_int := hn

/-- The log is opened for appending only after recovery. -/
def kvCreate (hn : n < 2 ^ 31) (threshold : Int) (btreeTable : BTreeTable) (disk : Disk) :
    Option (KVStore n) :=
  (kvRecover (kvEmpty hn threshold btreeTable disk)).map fun store =>
    { store with logFp := true, logSize := 0, disk := store.disk.appendLog [] }

/-- A directory without files of the store. -/
def Disk.fresh : Disk where
  snap := none
  snapTmp := none
  log := none
  tmpOpens := true

/-- What `kv_create` opens in an empty directory. -/
def freshStore (hn : n < 2 ^ 31) (threshold : Int) : KVStore n :=
  { kvEmpty hn threshold { cells := [] } Disk.fresh with
    logFp := true
    disk := Disk.fresh.appendLog [] }

instance instNeZeroCapacity : NeZero 1024 := inferInstance

/-- The store under the default configuration: 1024 slots, a checkpoint past 2 MB of log. -/
def defaultStore : KVStore 1024 :=
  freshStore (by decide) (2 * 1024 * 1024)

end Storage
end InventixDB
