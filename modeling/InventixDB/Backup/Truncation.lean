import InventixDB.Backup.BinaryRoundTrip
import Mathlib.Data.List.Perm.Subperm

/-!
# Truncation — restores from files that were cut off

Each read of an entry that comes short ends the loop like the end marker does, and the result is a
success.  So a cut shows only where the header is hit.
-/

namespace InventixDB
namespace Backup

open Storage
open Lib.ByteCodec
open Lib.OpenAddressing

variable {n : Nat} {opts : BackupOptions}

/-! ## Records -/

/-- The schema pass writes the entry. -/
def schemaWritten (opts : BackupOptions) (e : CStr × Value) : Bool :=
  match CStr.strstr e.1 (CStr.lit ":SCHEMA:") with
  | some schemaPart =>
      e.2.type = .schema &&
        (nameBefore ((CStr.snprintf 512 e.1).val.drop 3)).any fun db =>
          opts.selects db.1 (CStr.snprintf 64 (CStr.ofBytes (schemaPart.drop 8)))
  | none => false

/-- The row pass writes the entry. -/
def rowWritten (opts : BackupOptions) (e : CStr × Value) : Bool :=
  (keyNames e.1).any fun found => found.any fun names =>
    opts.selects names.dbName names.tableName && e.2.type = .row

def schemasWritten (store : KVStore n) (opts : BackupOptions) : List (CStr × Value) :=
  if opts.includeSchema then (toList store.entries).filter (schemaWritten opts) else []

def rowsWritten (store : KVStore n) (opts : BackupOptions) : List (CStr × Value) :=
  if opts.includeData then (toList store.entries).filter (rowWritten opts) else []

section File

variable {store : KVStore n} {now : UInt64} {ctime : CStr} {file : List UInt8}

/-- What is written for a schema. -/
def schemaBytes (e : CStr × Value) : List UInt8 :=
  1 :: recordBytes e.1 e.2.data

/-- What is written for a row: there is no marker. -/
def rowBytes (e : CStr × Value) : List UInt8 :=
  recordBytes e.1 e.2.data

/-- What stands between the header and the end marker. -/
def entryBytes (store : KVStore n) (opts : BackupOptions) : List UInt8 :=
  (schemasWritten store opts).flatMap schemaBytes ++ (rowsWritten store opts).flatMap rowBytes

end File

/-! ## Bytes of an entry -/

/-- The bytes of an entry in a file that reads back. -/
def entrySize (e : CStr × Value) : Nat :=
  9 + e.1.length + e.2.data.length

/-- The buffers for the key and the data are not of length `2 ^ 32`, which is 0. -/
def Allocates (e : CStr × Value) : Prop :=
  e.1.length % 2 ^ 32 ≠ 2 ^ 32 - 1 ∧ e.2.data.length % 2 ^ 32 ≠ 2 ^ 32 - 1

instance (e : CStr × Value) : Decidable (Allocates e) := by
  unfold Allocates
  infer_instance

section Cuts

variable {store : KVStore n} {now : UInt64} {ctime : CStr} {file : List UInt8}

end Cuts

end Backup
end InventixDB
