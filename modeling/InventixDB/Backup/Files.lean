import InventixDB.Storage.MapRefinement

/-!
# Files — what backups write and what restores read

A backup goes over the store twice, for schemas and for rows, and picks entries by what their keys
contain.  `none` is a run without a meaning: a name that overruns its 64 bytes, or a value that is
printed as a text and has no end.  Files always open.
-/

namespace InventixDB
namespace Backup

open Storage
open Lib.ByteCodec
open Lib.OpenAddressing

/-! ## Options -/

inductive BackupFormat
  | binary
  | sql
  | json
  | csv
  deriving DecidableEq, Repr

def BackupFormat.toNat : BackupFormat → Nat
  | .binary => 0
  | .sql => 1
  | .json => 2
  | .csv => 3

inductive BackupCompression
  | none
  | gzip
  deriving DecidableEq, Repr

def BackupCompression.toNat : BackupCompression → Nat
  | .none => 0
  | .gzip => 1

structure BackupOptions where
  format : BackupFormat
  compression : BackupCompression
  includeSchema : Bool
  includeData : Bool
  specificDb : Option CStr
  specificTable : Option CStr

def backupOptionsInit : BackupOptions where
  format := .binary
  compression := .none
  includeSchema := true
  includeData := true
  specificDb := none
  specificTable := none

/-- Whether the filters let a table through. -/
def BackupOptions.selects (opts : BackupOptions) (dbName tableName : CStr) : Bool :=
  opts.specificDb.all (· = dbName) && opts.specificTable.all (· = tableName)

/-! ## Escapes -/

/-- A byte for which a CSV value needs quotes. -/
def isCsvSpecial (c : UInt8) : Bool :=
  c == 44 || c == 34 || c == 10 || c == 13

def escapeCsvValue (val : CStr) : CStr :=
  if val.val.any isCsvSpecial then
    CStr.ofBytes (34 :: (val.val.flatMap fun c => if c = 34 then [34, c] else [c]) ++ [34])
  else val

/-- A byte as it stands in a JSON string. -/
def jsonByte (c : UInt8) : List UInt8 :=
  if c = 34 then [92, 34]
  else if c = 92 then [92, 92]
  else if c = 10 then [92, 110]
  else if c = 13 then [92, 114]
  else if c = 9 then [92, 116]
  else [c]

def escapeJsonString (val : CStr) : CStr :=
  CStr.ofBytes (34 :: val.val.flatMap jsonByte ++ [34])

/-! ## Rows -/

structure BackupContext where
  file : List UInt8
  firstRow : Bool

def BackupContext.fwrite (ctx : BackupContext) (bs : List UInt8) : BackupContext :=
  { ctx with file := ctx.file ++ bs }

/-- The database, the table and the row that a key is taken to name. -/
structure KeyNames where
  dbName : CStr
  tableName : CStr
  rowId : CStr

/-- The name in front of a colon and what stands behind it; a name has 64 bytes with its NUL. -/
def nameBefore (s : List UInt8) : Option (CStr × CStr) :=
  match CStr.breakAt 58 (CStr.ofBytes s) with
  | some (name, rest) => (CStr.sprintf 64 name).map (·, rest)
  | none => some (CStr.lit "", CStr.lit "")

/-- The names in a key with `DB:` and `:TBL:`; the inner `none` is any other key. -/
def keyNames (key : CStr) : Option (Option KeyNames) :=
  let keyCopy := CStr.snprintf 512 key
  match CStr.strstr keyCopy (CStr.lit "DB:"), CStr.strstr keyCopy (CStr.lit ":TBL:") with
  | some dbPrefix, some tblPart =>
      match nameBefore (dbPrefix.drop 3), nameBefore (tblPart.drop 5) with
      | some (dbName, _), some (tableName, rowId) =>
          some (some
            { dbName := dbName
              tableName := tableName
              rowId := CStr.snprintf 64 rowId })
      | _, _ => none
  | _, _ => some none

/-- `key_len | key | data_len | data`, with lengths of 32 bits. -/
def recordBytes (key : CStr) (data : List UInt8) : List UInt8 :=
  leBytes 4 key.length ++ key.val.take (key.length % 2 ^ 32) ++
    (leBytes 4 data.length ++ data.take (data.length % 2 ^ 32))

/-- What is written for a row. -/
def rowText (opts : BackupOptions) (names : KeyNames) (firstRow : Bool) (key : CStr)
    (data : List UInt8) : Option (List UInt8) :=
  match opts.format with
  | .binary => some (recordBytes key data)
  | .sql =>
      (CStr.ofBuffer? data).map fun data =>
        (CStr.lit "INSERT INTO " ++ names.tableName ++ CStr.lit " VALUES ('" ++ data ++
          CStr.lit "');\n").val
  | .json =>
      (CStr.ofBuffer? data).map fun data =>
        ((if firstRow then CStr.lit "" else CStr.lit ",\n") ++ CStr.lit "  \x7b\"_id\": \"" ++
          names.rowId ++ CStr.lit "\", \"_table\": \"" ++ names.tableName ++
          CStr.lit "\", \"_db\": \"" ++ names.dbName ++ CStr.lit "\", \"data\": " ++
          escapeJsonString data ++ CStr.lit "\x7d").val
  | .csv =>
      (CStr.ofBuffer? data).map fun data =>
        (names.dbName ++ CStr.lit "," ++ names.tableName ++ CStr.lit "," ++ names.rowId ++
          CStr.lit "," ++ escapeCsvValue data ++ CStr.lit "\n").val

/-- The names are taken out of every key, also where nothing is written. -/
def backupScanCallback (opts : BackupOptions) (key : CStr) (val : Value) (ctx : BackupContext) :
    Option BackupContext :=
  (keyNames key).bind fun found =>
    match found with
    | some names =>
        if opts.selects names.dbName names.tableName && val.type = .row then
          (rowText opts names ctx.firstRow key val.data).map fun bs =>
            { ctx.fwrite bs with firstRow := ctx.firstRow && opts.format != .json }
        else some ctx
    | none => some ctx

/-! ## Schemas -/

/-- `sscanf(tok, "%63[^:]:%31[^:]:%7s", col, type, pk)`, if it reads two fields or more -/
def scanColumn (tok : CStr) : Option (CStr × CStr × CStr) :=
  let col := (tok.val.takeWhile (· ≠ 58)).take 63
  match tok.val.drop col.length with
  | 58 :: rest =>
      let type := (rest.takeWhile (· ≠ 58)).take 31
      let pk :=
        match rest.drop type.length with
        | 58 :: rest =>
            ((rest.dropWhile CStr.isSpace).takeWhile fun c => !CStr.isSpace c).take 7
        | _ => []
      if col ≠ [] ∧ type ≠ [] then
        some (CStr.ofBytes col, CStr.ofBytes type, CStr.ofBytes pk)
      else none
  | _ => none

def columnSql (tok : CStr) : CStr :=
  match scanColumn tok with
  | some (col, type, pk) =>
      CStr.lit "  " ++ col ++ CStr.lit " " ++ type ++
        (if pk = CStr.lit "PK" then CStr.lit " PRIMARY KEY" else CStr.lit "")
  | none => CStr.lit ""

/-- The column lines, with a comma between any two. -/
def columnsSql : List CStr → CStr
  | [] => CStr.lit ""
  | [tok] => columnSql tok
  | tok :: toks => columnSql tok ++ CStr.lit ",\n" ++ columnsSql toks

def schemaText (opts : BackupOptions) (dbName tableName key : CStr) (data : List UInt8) :
    Option (List UInt8) :=
  match opts.format with
  | .sql =>
      (CStr.ofBuffer? data).map fun schema =>
        (CStr.lit "-- Schema for " ++ dbName ++ CStr.lit "." ++ tableName ++
          CStr.lit "\nCREATE TABLE IF NOT EXISTS " ++ tableName ++ CStr.lit " (\n" ++
          columnsSql (CStr.tokens 59 schema) ++ CStr.lit "\n);\n\n").val
  | .binary => some (1 :: recordBytes key data)
  | .json => some []
  | .csv => some []

/-- Only keys with `:SCHEMA:` are taken for schemas. -/
def backupSchemaCallback (opts : BackupOptions) (key : CStr) (val : Value) (ctx : BackupContext) :
    Option BackupContext :=
  match CStr.strstr key (CStr.lit ":SCHEMA:") with
  | some schemaPart =>
      if val.type = .schema then
        (nameBefore ((CStr.snprintf 512 key).val.drop 3)).bind fun db =>
          let tableName := CStr.snprintf 64 (CStr.ofBytes (schemaPart.drop 8))
          if opts.selects db.1 tableName then
            (schemaText opts db.1 tableName key val.data).map ctx.fwrite
          else some ctx
      else some ctx
  | none => some ctx

/-! ## Backups -/

/-- `BackupHeader`, with its counts and its checksum left at zero. -/
def backupHeader (opts : BackupOptions) (now : UInt64) : List UInt8 :=
  (CStr.lit "INVXBKP").val ++ [0] ++ leBytes 4 1 ++ leBytes 4 opts.format.toNat ++
    leBytes 4 opts.compression.toNat ++ leBytes 4 0 ++ leBytes 8 now.toNat ++ List.replicate 96 0

/-- What stands before the entries; `ctime` is the text of the time. -/
def openingText (opts : BackupOptions) (now : UInt64) (ctime : CStr) : List UInt8 :=
  match opts.format with
  | .binary => backupHeader opts now
  | .sql =>
      (CStr.lit "-- InventixDB Backup\n-- Generated: " ++ ctime ++
        CStr.lit "-- Format: SQL\n\n").val
  | .json =>
      (CStr.lit "\x7b\n\"backup_info\": \x7b\n  \"version\": 1,\n  \"timestamp\": " ++
        CStr.ofInt now.toNat ++
        CStr.lit ",\n  \"format\": \"json\"\n\x7d,\n\"data\": [\n").val
  | .csv => (CStr.lit "database,table,id,data\n").val

def closingText (opts : BackupOptions) : List UInt8 :=
  match opts.format with
  | .binary => [255]
  | .sql => []
  | .json => (CStr.lit "\n]\n\x7d\n").val
  | .csv => []

variable {n : Nat} [NeZero n]

/-- One pass over the store. -/
def backupPass (store : KVStore n) (callback : CStr → Value → BackupContext → Option BackupContext)
    (ctx : BackupContext) : Option BackupContext :=
  kvIterate store (fun key val ctx => ctx.bind (callback key val)) (some ctx)

/-- The bytes of the file. -/
def backupDatabase (store : KVStore n) (opts : BackupOptions) (now : UInt64) (ctime : CStr) :
    Option (List UInt8) := do
  let ctx : BackupContext := { file := openingText opts now ctime, firstRow := true }
  let ctx ←
    if opts.includeSchema then backupPass store (backupSchemaCallback opts) ctx else some ctx
  let ctx ← if opts.includeData then backupPass store (backupScanCallback opts) ctx else some ctx
  some (ctx.file ++ closingText opts)

def backupExportTable (store : KVStore n) (db table : CStr) (format : BackupFormat) (now : UInt64)
    (ctime : CStr) : Option (List UInt8) :=
  backupDatabase store
    { backupOptionsInit with
      format := format
      specificDb := some db
      specificTable := some table
      includeSchema := format = .sql } now ctime

/-! ## Passes over the store -/

omit [NeZero n] in
theorem backupPass_eq_foldl (store : KVStore n)
    (callback : CStr → Value → BackupContext → Option BackupContext) (ctx : BackupContext) :
    backupPass store callback ctx =
      (toList store.entries).foldl (fun ctx e => ctx.bind (callback e.1 e.2)) (some ctx) :=
  kvIterate_eq_foldl store _ _

theorem foldl_bind_none {ε σ : Type*} (callback : ε → σ → Option σ) (l : List ε) :
    l.foldl (fun ctx e => ctx.bind (callback e)) none = none := by
  induction l with
  | nil => rfl
  | cons e l ih => exact ih

/-- Steps that may fail come to an end if and only if each does. -/
theorem isSome_foldl_bind_iff {ε σ : Type*} {callback : ε → σ → Option σ} {Fine : ε → Prop}
    (hfine : ∀ e ctx, (callback e ctx).isSome ↔ Fine e) (l : List ε) (ctx : Option σ) :
    (l.foldl (fun ctx e => ctx.bind (callback e)) ctx).isSome ↔
      ctx.isSome ∧ ∀ e ∈ l, Fine e := by
  induction l generalizing ctx with
  | nil => simp
  | cons e l ih =>
      rw [List.foldl_cons, ih, List.forall_mem_cons]
      cases ctx with
      | none => simp
      | some ctx => simp [hfine]

omit [NeZero n] in
/-- A pass comes to its end if and only if the callback does at every entry. -/
theorem isSome_backupPass_iff {store : KVStore n}
    {callback : CStr → Value → BackupContext → Option BackupContext} {Fine : CStr × Value → Prop}
    (hfine : ∀ e ctx, (callback e.1 e.2 ctx).isSome ↔ Fine e) (ctx : BackupContext) :
    (backupPass store callback ctx).isSome ↔ ∀ e ∈ toList store.entries, Fine e := by
  rw [backupPass_eq_foldl, isSome_foldl_bind_iff hfine]
  simp

/-- A pass that skips some entries and writes a text for each of the others. -/
theorem file_foldl_bind {ε : Type*} {callback : ε → BackupContext → Option BackupContext}
    {p : ε → Bool} {text : ε → List UInt8} {l : List ε} {ctx ctx' : BackupContext}
    (hskip : ∀ e ∈ l, p e = false → ∀ ctx ctx', callback e ctx = some ctx' → ctx' = ctx)
    (hwrite : ∀ e ∈ l, p e = true → ∀ ctx ctx', callback e ctx = some ctx' →
      ctx'.file = ctx.file ++ text e)
    (hrun : l.foldl (fun ctx e => ctx.bind (callback e)) (some ctx) = some ctx') :
    ctx'.file = ctx.file ++ (l.filter p).flatMap text := by
  induction l generalizing ctx with
  | nil =>
      cases hrun
      simp
  | cons e l ih =>
      obtain ⟨hskip₁, hskip⟩ := List.forall_mem_cons.mp hskip
      obtain ⟨hwrite₁, hwrite⟩ := List.forall_mem_cons.mp hwrite
      rw [List.foldl_cons, Option.bind_some] at hrun
      cases hone : callback e ctx with
      | none =>
          rw [hone, foldl_bind_none] at hrun
          cases hrun
      | some ctx₁ =>
          rw [hone] at hrun
          cases hp : p e with
          | false =>
              rw [hskip₁ hp ctx ctx₁ hone] at hrun
              rw [List.filter_cons_of_neg (by rw [hp]; decide)]
              exact ih hskip hwrite hrun
          | true =>
              rw [List.filter_cons_of_pos hp, List.flatMap_cons, ← List.append_assoc,
                ← hwrite₁ hp ctx ctx₁ hone]
              exact ih hskip hwrite hrun

/-- A pass that skips every entry writes nothing. -/
theorem foldl_bind_of_skip {ε σ : Type*} {callback : ε → σ → Option σ} {l : List ε} {ctx : σ}
    (hskip : ∀ e ∈ l, ∀ ctx, callback e ctx = some ctx) :
    l.foldl (fun ctx e => ctx.bind (callback e)) (some ctx) = some ctx := by
  induction l with
  | nil => rfl
  | cons e l ih =>
      obtain ⟨hskip₁, hskip⟩ := List.forall_mem_cons.mp hskip
      rw [List.foldl_cons, Option.bind_some, hskip₁]
      exact ih hskip

/-! ## Restores -/

/-- A length of 32 bits and as many bytes.  The inner `none` is a file that ends before them, and
the outer one the length for which `malloc(len + 1)` allocates nothing. -/
def readSized (bs : List UInt8) : Option (Option (List UInt8 × List UInt8)) :=
  match readLE 4 bs with
  | none => some none
  | some (len, bs) => if len = 2 ^ 32 - 1 then none else some (readExact len bs)

/-- The next entry and the rest of the file; the inner `none` ends the restore. -/
def readEntry : List UInt8 → Option (Option ((CStr × Value) × List UInt8))
  | [] => some none
  | typeMarker :: bs =>
      if typeMarker = 255 then some none
      else
        (readSized bs).bind fun key =>
          match key with
          | none => some none
          | some (key, bs) =>
              (readSized bs).map fun data =>
                data.map fun (data, bs) =>
                  ((CStr.ofBytes key,
                    { data := data, type := if typeMarker = 1 then .schema else .row }), bs)

/-- The loop of `restore_database`; `fuel` bounds the number of entries. -/
def restoreEntries : Nat → List UInt8 → KVStore n → Option (KVStore n)
  | 0, _, store => some store
  | fuel + 1, bs, store =>
      (readEntry bs).bind fun entry =>
        match entry with
        | none => some store
        | some (e, bs) => restoreEntries fuel bs (kvPut store e.1 e.2)

/-- Whether the header could be read, and the store after it. -/
def restoreDatabase (store : KVStore n) (file : List UInt8) : Option (Bool × KVStore n) :=
  match readExact 128 file with
  | none => some (false, store)
  | some (header, bs) =>
      if header.take 7 = (CStr.lit "INVXBKP").val then
        (restoreEntries bs.length bs store).map fun store => (true, store)
      else some (false, store)

/-! ## Imports -/

/-- `fgets` into 4096 bytes. -/
def fgets (bs : List UInt8) : Option (List UInt8 × List UInt8) :=
  if bs = [] then none
  else
    let line := bs.take 4095
    let len := ((line.idxOf? 10).map (· + 1)).getD line.length
    some (bs.take len, bs.drop len)

/-- One call of `strtok` with a comma: the token, and what the next call goes on with. -/
def strtok (s : List UInt8) : Option CStr × List UInt8 :=
  match s.dropWhile (· = 44) with
  | [] => (none, [])
  | s => (some (CStr.ofBytes (s.takeWhile (· ≠ 44))), (s.dropWhile (· ≠ 44)).drop 1)

/-- The entry a line is put as: `tok_data` is all that is left after three tokens. -/
def importEntry (db table : Option CStr) (line : List UInt8) : Option (CStr × Value) :=
  let line := (CStr.ofBytes line).val.takeWhile fun c => c ≠ 10 && c ≠ 13
  let (tokDb, line) := strtok line
  let (tokTable, line) := strtok line
  let (tokId, line) := strtok line
  let tokData := CStr.ofBytes line
  if tokData = CStr.lit "" then none
  else do
    let useDb ← db.or tokDb
    let useTable ← table.or tokTable
    let id ← tokId
    some
      (CStr.snprintf 256
        (CStr.lit "DB:" ++ useDb ++ CStr.lit ":TBL:" ++ useTable ++ CStr.lit ":" ++ id),
        { data := tokData.val ++ [0], type := .row })

/-- The loop over the lines; `fuel` bounds their number. -/
def importLines (db table : Option CStr) : Nat → List UInt8 → KVStore n → KVStore n
  | 0, _, store => store
  | fuel + 1, bs, store =>
      match fgets bs with
      | none => store
      | some (line, bs) =>
          match importEntry db table line with
          | none => importLines db table fuel bs store
          | some e => importLines db table fuel bs (kvPut store e.1 e.2)

/-- Whether the format is known, and the store afterwards; a JSON file is not read at all. -/
def restoreImportTable (store : KVStore n) (db table : Option CStr) (file : List UInt8)
    (format : BackupFormat) : Bool × KVStore n :=
  match format with
  | .csv =>
      let bs := ((fgets file).map Prod.snd).getD []
      (true, importLines db table bs.length bs store)
  | .json => (true, store)
  | .binary => (false, store)
  | .sql => (false, store)

end Backup
end InventixDB
