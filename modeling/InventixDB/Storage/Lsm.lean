import InventixDB.Lib.AvlTree
import InventixDB.Storage.CStr

/-!
# Lsm — the log-structured merge tree

Puts and deletes go to a table in memory; a flush writes that table to a new SSTable file, and
files are never merged.  Only puts reach the log and count towards a flush, a delete leaves a
tombstone and nothing else.  Reads ask the memtable first and then the files, newest first.
-/

namespace InventixDB
namespace Storage

open Lib Lib.ByteCodec

/-- A buffer of bytes; no object of C has 2^63 of them. -/
abbrev Blob := { bs : List UInt8 // bs.length < 2 ^ 63 }

/-! ## The memtable -/

instance instTransOrdCStr : Std.TransOrd CStr where
  eq_swap {a b} := by
    show compare a.val b.val = (compare b.val a.val).swap
    exact Std.OrientedCmp.eq_swap
  isLE_trans {_ _ _} hab hbc := by
    have htrans : Std.TransCmp (compare : List UInt8 → List UInt8 → Ordering) := inferInstance
    exact htrans.isLE_trans hab hbc

instance instLawfulEqOrdCStr : Std.LawfulEqOrd CStr where
  compare_self {a} := by
    have hlawful : Std.LawfulEqCmp (compare : List UInt8 → List UInt8 → Ordering) := inferInstance
    exact hlawful.compare_self
  eq_of_compare h := Subtype.ext (Std.LawfulEqOrd.compare_eq_iff_eq.mp h)

structure LSMEntry where
  value : Blob
  deleted : Bool
  deriving DecidableEq

/-- What a reader gets of an entry; a tombstone reads as nothing. -/
def LSMEntry.live (entry : LSMEntry) : Option Blob :=
  if entry.deleted then none else some entry.value

/-- `MEMTABLE_SIZE` -/
def memtableSize : UInt64 := 1024 * 1024

structure MemTable where
  root : AvlTree CStr LSMEntry
  size : UInt64
  count : UInt64

def memtableCreate : MemTable :=
  { root := .nil, size := 0, count := 0 }

/-- What a put adds to the size; an `LSMEntry` has 40 bytes. -/
def entrySize (key : CStr) (value : Blob) : Nat :=
  value.val.length + key.length + 40

def memtablePut (mt : MemTable) (key : CStr) (value : Blob) : MemTable :=
  { root := mt.root.insert key { value, deleted := false }
    size := mt.size + UInt64.ofNat (entrySize key value)
    count := mt.count + 1 }

def memtableGet (mt : MemTable) (key : CStr) : Option LSMEntry :=
  mt.root.find key

/-- The tombstone of a deleted key, with one byte of value. -/
def tombstone : LSMEntry :=
  { value := ⟨[0], by decide⟩, deleted := true }

def memtableDelete (mt : MemTable) (key : CStr) : MemTable :=
  { mt with root := mt.root.insert key tombstone }

/-! ## Bloom filters -/

def bloomHash1 (key : CStr) : UInt64 :=
  key.val.foldl (fun hash c => ((hash <<< 5) + hash) + c.toInt8.toInt64.toUInt64) 5381

def bloomHash2 (key : CStr) : UInt64 :=
  key.val.foldl
    (fun hash c => c.toInt8.toInt64.toUInt64 + (hash <<< 6) + (hash <<< 16) - hash) 0

/-- The bits of a filter of 1024 bytes. -/
abbrev BloomFilter := Fin 8192 → Bool

/-- The bit of the `i`-th hash function. -/
def bloomIndex (key : CStr) (i : Fin 4) : Fin 8192 :=
  Fin.ofNat 8192 (bloomHash1 key + UInt64.ofNat i * bloomHash2 key).toNat

def bloomAdd (filter : BloomFilter) (key : CStr) : BloomFilter :=
  fun idx => filter idx || decide (∃ i, bloomIndex key i = idx)

def bloomMayContain (filter : BloomFilter) (key : CStr) : Bool :=
  decide (∀ i, filter (bloomIndex key i) = true)

/-! ## SSTables -/

/-- The bytes of an entry; the length of the key is cut down to 32 bits, and so is the key. -/
def entryBytes (key : CStr) (entry : LSMEntry) : List UInt8 :=
  leBytes 4 key.length ++ key.val.take (key.length % 2 ^ 32) ++
    [if entry.deleted then 1 else 0] ++ leBytes 8 entry.value.val.length ++ entry.value.val

/-- `source` is no part of the program: it is the memtable the file was written from, for
statements about what the file holds. -/
structure SSTable where
  filename : CStr
  bloomFilter : BloomFilter
  source : MemTable

/-- What `sstable_write` writes to the file: the entries in order. -/
def sstableBytes (mt : MemTable) : List UInt8 :=
  mt.root.toList.flatMap fun kv => entryBytes kv.1 kv.2

def sstableFilter (mt : MemTable) : BloomFilter :=
  mt.root.toList.foldl (fun filter kv => bloomAdd filter kv.1) fun _ => false

/-- Search the bytes of a file.  The outer `none` is undefined behaviour: a key length of 2^32 - 1
makes `malloc(key_len + 1)` allocate nothing, and a record cut short leaves the variables it is
read into as they were. -/
def sstableScan (key : CStr) (bs : List UInt8) : Option (Option LSMEntry) :=
  match _hlen : readLE 4 bs with
  | none => some none
  | some (keyLen, bs₁) =>
      if keyLen + 1 = 2 ^ 32 then none
      else
        match _hkey : readExact keyLen bs₁ with
        | none => none
        | some (readKey, bs₂) =>
            match bs₂ with
            | [] => none
            | deleted :: bs₃ =>
                match _hvalue : readLE 8 bs₃ with
                | none => none
                | some (valueLen, bs₄) =>
                    -- `fseek` would take a longer value for a step back
                    if hlong : valueLen < 2 ^ 63 then
                      if CStr.ofBytes readKey = key then
                        if valueLen ≤ bs₄.length then
                          some (some
                            { value := ⟨bs₄.take valueLen,
                                lt_of_le_of_lt (List.length_take_le _ _) hlong⟩
                              deleted := deleted != 0 })
                        else none
                      else sstableScan key (bs₄.drop valueLen)
                    else none
termination_by bs.length
decreasing_by
  have h₁ := length_readLE _hlen
  have h₂ : bs₁.length = keyLen + (deleted :: bs₃).length := length_readExact _hkey
  have h₃ := length_readLE _hvalue
  rw [List.length_cons] at h₂
  rw [List.length_drop]
  dsimp only at h₁ h₃
  omega

/-! ## The tree -/

/-- The directory of a tree: its SSTables and its log, and which paths `fopen` opens for
writing. -/
structure LsmDir where
  files : CStr → Option (List UInt8)
  wal : List UInt8
  writable : CStr → Bool

/-- Only level 0 is ever filled; `walFile` is whether the log is open. -/
structure LSMTree where
  memtable : MemTable
  level0 : List SSTable
  basePath : CStr
  nextSstableId : UInt64
  walFile : Bool

def walPath (basePath : CStr) : CStr :=
  CStr.snprintf 512 (basePath ++ CStr.lit "/wal.log")

/-- The path as the record of the table keeps it, in 256 bytes. -/
def sstablePath (basePath : CStr) (id : UInt64) : CStr :=
  CStr.snprintf 256 (CStr.snprintf 512
    (basePath ++ CStr.lit "/level0_" ++ CStr.ofInt id.toNat ++ CStr.lit ".sst"))

def sstableGet (dir : LsmDir) (sst : SSTable) (key : CStr) : Option (Option LSMEntry) :=
  match dir.files sst.filename with
  | none => some none
  | some bs => sstableScan key bs

def lsmCreate (basePath : CStr) (dir : LsmDir) : LSMTree :=
  { memtable := memtableCreate
    level0 := []
    basePath
    nextSstableId := 1
    walFile := dir.writable (walPath basePath) }

/-- The path of the file the next flush writes. -/
def LSMTree.nextPath (tree : LSMTree) : CStr :=
  sstablePath tree.basePath tree.nextSstableId

/-- Truncating the log closes it and opens it anew. -/
def LSMTree.walReopens (tree : LSMTree) (dir : LsmDir) : Bool :=
  tree.walFile && dir.writable (walPath tree.basePath)

/-- The memtable has gone to a new table. -/
def LSMTree.flushed (tree : LSMTree) (dir : LsmDir) : LSMTree :=
  { tree with
    memtable := memtableCreate
    level0 := tree.level0 ++
      [{ filename := tree.nextPath
         bloomFilter := sstableFilter tree.memtable
         source := tree.memtable }]
    nextSstableId := tree.nextSstableId + 1
    walFile := tree.walReopens dir }

def LsmDir.flushed (dir : LsmDir) (tree : LSMTree) : LsmDir :=
  { dir with
    files := Function.update dir.files tree.nextPath (some (sstableBytes tree.memtable))
    wal := if tree.walReopens dir then [] else dir.wal }

def lsmFlushMemtable (tree : LSMTree) (dir : LsmDir) : LSMTree × LsmDir :=
  if tree.memtable.count = 0 then (tree, dir)
  else if dir.writable tree.nextPath then (tree.flushed dir, dir.flushed tree)
  else ({ tree with nextSstableId := tree.nextSstableId + 1 }, dir)

/-- The log record of a put. -/
def walRecord (key : CStr) (value : Blob) : List UInt8 :=
  leBytes 4 key.length ++ key.val.take (key.length % 2 ^ 32) ++
    leBytes 8 value.val.length ++ value.val

def LsmDir.logPut (dir : LsmDir) (tree : LSMTree) (key : CStr) (value : Blob) : LsmDir :=
  if tree.walFile then { dir with wal := dir.wal ++ walRecord key value } else dir

def LSMTree.inserted (tree : LSMTree) (key : CStr) (value : Blob) : LSMTree :=
  { tree with memtable := memtablePut tree.memtable key value }

def lsmPut (tree : LSMTree) (dir : LsmDir) (key : CStr) (value : Blob) : LSMTree × LsmDir :=
  if (tree.inserted key value).memtable.size ≥ memtableSize then
    lsmFlushMemtable (tree.inserted key value) (dir.logPut tree key value)
  else (tree.inserted key value, dir.logPut tree key value)

def lsmDelete (tree : LSMTree) (key : CStr) : LSMTree :=
  { tree with memtable := memtableDelete tree.memtable key }

/-- Ask the tables one after another, skipping those whose filter does not know the key. -/
def searchTables (dir : LsmDir) (key : CStr) : List SSTable → Option (Option LSMEntry)
  | [] => some none
  | sst :: rest =>
      if bloomMayContain sst.bloomFilter key then
        match sstableGet dir sst key with
        | none => none
        | some none => searchTables dir key rest
        | some (some entry) => some (some entry)
      else searchTables dir key rest

/-- The inner `none` is the return value -1, "not found". -/
def lsmGet (tree : LSMTree) (dir : LsmDir) (key : CStr) : Option (Option Blob) :=
  match memtableGet tree.memtable key with
  | some entry => some entry.live
  | none => (searchTables dir key tree.level0.reverse).map fun found => found.bind LSMEntry.live

/-- What stays behind of a tree that is closed. -/
def lsmClose (tree : LSMTree) (dir : LsmDir) : LSMTree × LsmDir :=
  lsmFlushMemtable tree dir

end Storage
end InventixDB
