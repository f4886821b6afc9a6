import InventixDB.Executor.Ast
import InventixDB.Executor.Row
import InventixDB.Transaction.Manager

/-!
# Statements — the executor

Each `execute_…` function of the executor, from the state of the server to the state it leaves.
`none` is a run that the C standard gives no meaning to: a text that overruns its buffer, a read
past the end of a value, a counter beyond `int`.
-/

namespace InventixDB
namespace Executor

open Storage
open Transaction

variable {n : Nat} [NeZero n]

/-! ## Texts -/

def ansiRed : CStr := CStr.lit "\x1b[31m"

def ansiGreen : CStr := CStr.lit "\x1b[32m"

def ansiYellow : CStr := CStr.lit "\x1b[33m"

def ansiReset : CStr := CStr.lit "\x1b[0m"

/-- The text of a schema value; `some none` where there is none of type SCHEMA. -/
def schemaText (schemaVal : Option Value) : Option (Option CStr) :=
  match schemaVal with
  | some v => if v.type = .schema then (CStr.ofBuffer? v.data).map some else some none
  | none => some none

/-! ## Tables -/

/-- `name:type[:PK];` for every column, in a 1024-byte buffer. -/
def schemaOf (columns : List ColumnDef) : Option CStr :=
  CStr.sprintf 1024
    (columns.foldl
      (fun schema column =>
        schema ++ column.name ++ CStr.lit ":" ++ column.type ++
          (if column.isPk then CStr.lit ":PK" else CStr.lit "") ++ CStr.lit ";")
      (CStr.lit ""))

def executeCreateTable (db : Db n) (ctx : SessionContext) (tableName : CStr)
    (columns : List ColumnDef) : Option (Db n) := do
  let key ← sysGenerateKeySchema ctx.currentDb tableName
  if (db.get key).isSome then
    some (db.fprintf (CStr.lit "Error: Table '" ++ tableName ++ CStr.lit "' already exists.\n"))
  else
    let schema ← schemaOf columns
    let db := db.call (.put key { data := schema.val ++ [0], type := .schema })
    let db := txnLogCreateTable db tableName schema
    let seqKey ← sysGenerateKeySeq ctx.currentDb tableName
    let db := db.call (.put seqKey { data := CStr.intBytes 0, type := .row })
    some (db.fprintf (CStr.lit "Table '" ++ tableName ++ CStr.lit "' created.\n"))

/-- The schema is logged and deleted; the counter is deleted without a record. -/
def executeDropTable (db : Db n) (ctx : SessionContext) (tableName : CStr) : Option (Db n) := do
  let metaKey ← sysGenerateKeySchema ctx.currentDb tableName
  match db.get metaKey with
  | none =>
      some (db.fprintf (CStr.lit "Error: Table '" ++ tableName ++ CStr.lit "' does not exist.\n"))
  | some schemaVal =>
      let db ← txnLogDropTable db tableName schemaVal.data
      let db := db.call (.delete metaKey)
      let seqKey ← sysGenerateKeySeq ctx.currentDb tableName
      let db := db.call (.delete seqKey)
      some (db.fprintf
        (CStr.lit "Table '" ++ tableName ++ CStr.lit "' dropped (Metadata removed).\n"))

/-! ## Rows -/

/-- The position of the first column marked `:PK`, or the first column. -/
def pkIndex (schema : Option CStr) : Nat :=
  match schema with
  | some schema =>
      ((CStr.tokens 59 schema).findIdx? fun tok => CStr.contains (CStr.lit ":PK") tok).getD 0
  | none => 0

/-- The sequence counter of a table as the executor reads it. -/
def counterOf (db : Db n) (seqKey : CStr) (absent : Int) : Option Int :=
  match db.get seqKey with
  | some v => CStr.readInt v.data
  | none => some absent

/-- `seq + 1` as an `int` -/
def nextInt (i : Int) : Option Int :=
  if i + 1 < 2 ^ 31 then some (i + 1) else none

def isNumeric (s : CStr) : Bool :=
  s.val.all CStr.isDigit

/-- The id a row is stored under.  `AUTO` draws the next number of the counter, and an explicit
number beyond the counter moves it up; neither write is logged. -/
def resolveId (db : Db n) (ctx : SessionContext) (tableName id : CStr) : Option (CStr × Db n) :=
  if id = CStr.lit "AUTO" then do
    let seqKey ← sysGenerateKeySeq ctx.currentDb tableName
    let last ← counterOf db seqKey 0
    let seq ← nextInt last
    some (CStr.ofInt seq, db.call (.put seqKey { data := CStr.intBytes seq, type := .row }))
  else do
    let finalId ← CStr.sprintf 64 id
    if isNumeric finalId then
      let seqKey ← sysGenerateKeySeq ctx.currentDb tableName
      let currentSeq ← counterOf db seqKey 0
      let insertedId := CStr.atoi finalId
      if insertedId > currentSeq then
        some (finalId,
          db.call (.put seqKey { data := CStr.intBytes insertedId, type := .row }))
      else some (finalId, db)
    else some (finalId, db)

/-- `column:value;` for every schema column that has a value, in a 2048-byte buffer. -/
def indexText (schema : CStr) (vals : List CStr) : Option CStr :=
  CStr.sprintf 2048
    (((CStr.tokens 59 schema).zip vals).foldl
      (fun text entry =>
        match CStr.breakAt 58 entry.1 with
        | some (column, _) => text ++ column ++ CStr.lit ":" ++ entry.2 ++ CStr.lit ";"
        | none => text)
      (CStr.lit ""))

def updateIndexes (db : Db n) (tableName key : CStr) (schema : Option CStr) (vals : List CStr) :
    Option (Db n) :=
  match schema with
  | some schema =>
      (indexText schema vals).map fun text =>
        { db with store := kvUpdateIndexes db.store tableName key text }
  | none => some db

/-- One row of an INSERT, with the number of rows inserted so far. -/
def insertRow (ctx : SessionContext) (tableName : CStr) (schema : Option CStr)
    (state : Db n × Nat) (vals : List CStr) : Option (Db n × Nat) :=
  let (db, count) := state
  match vals[pkIndex schema]? with
  | none =>
      some (db.fprintf (CStr.lit "Error: PK value missing in row " ++ CStr.ofInt (count + 1) ++
        CStr.lit "\n"), count)
  | some id => do
      let (finalId, db) ← resolveId db ctx tableName id
      let vals := vals.set (pkIndex schema) finalId
      let key ← sysGenerateKeyTable ctx.currentDb tableName finalId
      if (db.get key).isSome then
        some (db.fprintf (CStr.lit "Warning: Duplicate entry for Primary Key '" ++ finalId ++
          CStr.lit "' (Skipped).\n"), count)
      else
        let rowBin ← rowSerialize vals
        let db := db.call (.put key { data := rowBin, type := .row })
        let db := txnLogInsert db tableName key
        let db ← updateIndexes db tableName key schema vals
        some (db, count + 1)

/-- The rows of an INSERT, one after another. -/
def insertRows (ctx : SessionContext) (tableName : CStr) (schema : Option CStr) :
    Db n × Nat → List (List CStr) → Option (Db n × Nat)
  | state, [] => some state
  | state, vals :: rows =>
      (insertRow ctx tableName schema state vals).bind fun state =>
        insertRows ctx tableName schema state rows

def executeInsert (db : Db n) (ctx : SessionContext) (tableName : CStr)
    (rows : List (List CStr)) : Option (Db n) :=
  if rows = [] then some db
  else do
    let metaKey ← sysGenerateKeySchema ctx.currentDb tableName
    let schema ← schemaText (db.get metaKey)
    let (db, count) ← insertRows ctx tableName schema (db, 0) rows
    some (db.fprintf (CStr.lit "Inserted " ++ CStr.ofInt count ++ CStr.lit " row(s) into '" ++
      tableName ++ CStr.lit "'.\n"))

/-- The id a DELETE names, if its condition is `id = …`. -/
def deleteTarget (whereClause : Option ASTExpr) : Option (Option CStr) :=
  match whereClause with
  | some (.binary left op right) =>
      if op = CStr.lit "=" then do
        let col ← left.literalValue
        if col = CStr.lit "id" then right.literalValue.map some else some none
      else some none
  | _ => some none

def executeDelete (db : Db n) (ctx : SessionContext) (tableName : CStr)
    (whereClause : Option ASTExpr) : Option (Db n) := do
  match ← deleteTarget whereClause with
  | none => some (db.fprintf (CStr.lit "Generic Delete requires ID currently (e.g. id=1).\n"))
  | some id =>
      let key ← sysGenerateKeyTable ctx.currentDb tableName id
      let db :=
        match db.get key with
        | some old => txnLogDelete db tableName key old.data
        | none => db
      let db := db.call (.delete key)
      some (db.fprintf (CStr.lit "Deleted key: " ++ key ++ CStr.lit "\n"))

/-- The column names of a schema, at most 64 of them. -/
def columnNames (schema : CStr) : List CStr :=
  ((CStr.tokens 59 schema).filterMap fun tok => (CStr.breakAt 58 tok).map Prod.fst).take 64

/-- The id an UPDATE names, if its condition compares `id` with a literal. -/
def updateTarget (whereClause : Option ASTExpr) : Option CStr :=
  match whereClause with
  | some (.binary (.literal col) op (.literal val)) =>
      if op = CStr.lit "=" && CStr.sameIgnoringCase col (CStr.lit "id") then some val else none
  | some (.binary (.identifier col) op (.literal val)) =>
      if op = CStr.lit "=" && CStr.sameIgnoringCase col (CStr.lit "id") then some val else none
  | _ => none

/-- The row after the SET list: each assignment goes to the first column of its name. -/
def applySets (names : List CStr) (sets : List (CStr × CStr)) (values : List CStr) : List CStr :=
  sets.foldl
    (fun values set =>
      match names.findIdx? fun name => CStr.sameIgnoringCase set.1 name with
      | some j => values.set j set.2
      | none => values) values

def executeUpdate (db : Db n) (ctx : SessionContext) (tableName : CStr)
    (sets : List (CStr × CStr)) (whereClause : Option ASTExpr) : Option (Db n) := do
  let metaKey ← sysGenerateKeySchema ctx.currentDb tableName
  match db.get metaKey with
  | none =>
      some (db.fprintf (CStr.lit "Error: Table '" ++ tableName ++ CStr.lit "' does not exist.\n"))
  | some schemaVal =>
      let schema ← CStr.ofBuffer? schemaVal.data
      let names := columnNames schema
      match sets.find? fun set => !names.any fun name => CStr.sameIgnoringCase set.1 name with
      | some set =>
          some (db.fprintf (CStr.lit "Error: Column '" ++ set.1 ++
            CStr.lit "' does not exist in table '" ++ tableName ++ CStr.lit "'.\n"))
      | none =>
          match updateTarget whereClause with
          | none =>
              some (db.fprintf (CStr.lit ("UPDATE without id=X condition not fully " ++
                "implemented. Use: UPDATE table SET col=val WHERE id=X;\n")))
          | some id =>
              let key ← sysGenerateKeyTable ctx.currentDb tableName id
              match db.get key with
              | none =>
                  some (db.fprintf (CStr.lit "Error: Row with id=" ++ id ++
                    CStr.lit " not found.\n"))
              | some rowVal =>
                  match ← rowDeserialize rowVal.data with
                  | none =>
                      some (db.fprintf (CStr.lit "Error: Could not deserialize row data.\n"))
                  | some values =>
                      let db := txnLogUpdate db tableName key rowVal.data
                      let newRow ← rowSerialize (applySets names sets values)
                      let db := db.call (.put key { data := newRow, type := .row })
                      some (db.fprintf (CStr.lit "Updated 1 row in '" ++ tableName ++
                        CStr.lit "'.\n"))

/-! ## Documents -/

def executeDocInsert (db : Db n) (ctx : SessionContext) (collection jsonBody : CStr) :
    Option (Db n) := do
  let seqKey ← CStr.sprintf 256
    (CStr.lit "DB:" ++ ctx.currentDb ++ CStr.lit ":DOC_SEQ:" ++ collection)
  let last ← counterOf db seqKey 0
  let nextId ← nextInt last
  let db := db.call (.put seqKey { data := CStr.intBytes nextId, type := .row })
  let key ← CStr.sprintf 256
    (CStr.lit "DB:" ++ ctx.currentDb ++ CStr.lit ":DOC:" ++ collection ++ CStr.lit ":" ++
      CStr.ofInt nextId)
  let db := db.call (.put key { data := jsonBody.val ++ [0], type := .json })
  some (db.fprintf (CStr.lit "Document saved (ID: " ++ CStr.ofInt nextId ++
    CStr.lit ") key: " ++ key ++ CStr.lit "\n"))

def executeDocRemove (db : Db n) (ctx : SessionContext) (collection docId : CStr) :
    Option (Db n) := do
  let key ← CStr.sprintf 256
    (CStr.lit "DB:" ++ ctx.currentDb ++ CStr.lit ":DOC:" ++ collection ++ CStr.lit ":" ++ docId)
  if (db.get key).isSome then
    some ((db.call (.delete key)).fprintf (CStr.lit "Document removed: " ++ key ++ CStr.lit "\n"))
  else some (db.fprintf (CStr.lit "Error: Document not found.\n"))

/-! ## Databases, users, indexes, checkpoints -/

def executeCreateUser (db : Db n) (username password : CStr) : Option (Db n) := do
  let key ← CStr.sprintf 64 (CStr.lit "SYS:USER:" ++ username)
  if (db.get key).isSome then
    some (db.fprintf (CStr.lit "Error: User '" ++ username ++ CStr.lit "' already exists.\n"))
  else
    let phash := Lib.ByteCodec.leBytes 8 (CStr.hash password).toNat
    some ((db.call (.put key { data := phash, type := .row })).fprintf
      (CStr.lit "User '" ++ username ++ CStr.lit "' created.\n"))

def sysDbKey (dbName : CStr) : Option CStr :=
  CStr.sprintf 256 (CStr.lit "SYS:DB:" ++ dbName)

def executeCreateDb (db : Db n) (dbName : CStr) : Option (Db n) := do
  let key ← sysDbKey dbName
  if (db.get key).isSome then
    some (db.fprintf (CStr.lit "Error: Database '" ++ dbName ++ CStr.lit "' already exists.\n"))
  else
    some ((db.call (.put key { data := CStr.intBytes 1, type := .row })).fprintf
      (CStr.lit "Database '" ++ dbName ++ CStr.lit "' created.\n"))

/-- `strcpy(ctx->current_db, name)` with 64 bytes of room. -/
def SessionContext.switchTo (ctx : SessionContext) (dbName : CStr) : Option SessionContext :=
  (CStr.sprintf 64 dbName).map fun name => { ctx with currentDb := name }

def executeUseDb (db : Db n) (ctx : SessionContext) (dbName : CStr) :
    Option (Db n × SessionContext) :=
  if dbName = CStr.lit "public" then do
    let ctx ← ctx.switchTo (CStr.lit "public")
    some (db.fprintf (ansiGreen ++ CStr.lit "Switched to database 'public'.\n" ++ ansiReset), ctx)
  else do
    let key ← sysDbKey dbName
    if (db.get key).isSome then
      let ctx ← ctx.switchTo dbName
      some (db.fprintf (ansiGreen ++ CStr.lit "Switched to database '" ++ ctx.currentDb ++
        CStr.lit "'.\n" ++ ansiReset), ctx)
    else
      some (db.fprintf (CStr.lit "Error: Database '" ++ dbName ++
        CStr.lit "' does not exist.\n"), ctx)

/-- The keys are collected in slot order first and deleted afterwards. -/
def executeDropDb (db : Db n) (ctx : SessionContext) (dbName : CStr) : Option (Db n) :=
  if dbName = CStr.lit "public" then
    some (db.fprintf (ansiRed ++ CStr.lit "Error: Cannot drop the default database 'public'.\n" ++
      ansiReset))
  else if dbName = ctx.currentDb then
    some (db.fprintf (ansiRed ++ CStr.lit "Error: Cannot drop database '" ++ dbName ++
      CStr.lit "' — you are currently using it. Switch first with USE <other_db>.\n" ++ ansiReset))
  else do
    let sysKey ← sysDbKey dbName
    if (db.get sysKey).isSome then
      let pre ← CStr.sprintf 256 (CStr.lit "DB:" ++ dbName ++ CStr.lit ":")
      let keys := kvIterate db.store
        (fun key _ keys => if CStr.startsWith pre key then keys ++ [key] else keys) []
      let db := keys.foldl (fun db key => db.call (.delete key)) db
      let db := db.call (.delete sysKey)
      some (db.fprintf (ansiGreen ++ CStr.lit "Database '" ++ dbName ++
        CStr.lit "' dropped successfully.\n" ++ ansiReset))
    else
      some (db.fprintf (CStr.lit "Error: Database '" ++ dbName ++
        CStr.lit "' does not exist.\n"))

def executeCreateIndex (db : Db n) (ctx : SessionContext) (tableName colName : CStr) :
    Option (Db n) := do
  let tableFull ← CStr.sprintf 256
    (CStr.lit "DB:" ++ ctx.currentDb ++ CStr.lit ":TBL:" ++ tableName)
  let idx : Index := { table := tableFull, column := colName, nodes := [] }
  let db := { db with store := { db.store with indexes := idx :: db.store.indexes } }
  some (db.fprintf (CStr.lit "Index created on " ++ tableName ++ CStr.lit "(" ++ colName ++
    CStr.lit ") [Optimized]\n"))

def executeCheckpoint (db : Db n) : Db n :=
  ((db.fprintf (CStr.lit "Initiating Checkpoint...\n")).call .snapshot).fprintf
    (CStr.lit "Checkpoint Complete. Log Truncated.\n")

/-! ## Transactions -/

def executeBegin (db : Db n) (ctx : SessionContext) : Db n :=
  match txnBegin db.txnManager ctx.currentUser ctx.currentDb with
  | some manager =>
      { db with txnManager := manager }.fprintf (ansiGreen ++
        CStr.lit "Transaction started (ID: " ++
        CStr.ofInt (txnGetId manager) ++ CStr.lit ").\n" ++ ansiReset)
  | none =>
      db.fprintf (ansiRed ++ CStr.lit ("Error: Could not start transaction. " ++
        "Another transaction may already be active.\n") ++ ansiReset)

/-- A commit takes a checkpoint. -/
def executeCommit (db : Db n) : Db n :=
  match txnCommit db.txnManager with
  | some manager =>
      ({ db with txnManager := manager }.fprintf (ansiGreen ++ CStr.lit "Transaction " ++
        CStr.ofInt (txnGetId db.txnManager) ++ CStr.lit " committed successfully.\n" ++
        ansiReset)).call .snapshot
  | none =>
      db.fprintf (ansiRed ++ CStr.lit "Error: No active transaction to commit.\n" ++ ansiReset)

def executeRollback (db : Db n) : Db n :=
  match txnRollback db with
  | some rolledBack =>
      rolledBack.fprintf (ansiYellow ++ CStr.lit "Transaction " ++
        CStr.ofInt (txnGetId db.txnManager) ++ CStr.lit " rolled back.\n" ++ ansiReset)
  | none =>
      db.fprintf (ansiRed ++ CStr.lit "Error: No active transaction to rollback.\n" ++ ansiReset)

def executeRollbackTo (db : Db n) (name : CStr) : Db n :=
  match txnRollbackToSavepoint db name with
  | some rolledBack =>
      rolledBack.fprintf (ansiYellow ++ CStr.lit "Rolled back to savepoint '" ++ name ++
        CStr.lit "'.\n" ++ ansiReset)
  | none =>
      db.fprintf (ansiRed ++ CStr.lit "Error: Savepoint '" ++ name ++ CStr.lit "' not found.\n" ++
        ansiReset)

def executeSavepoint (db : Db n) (name : CStr) : Db n :=
  match txnSavepoint db name with
  | some saved =>
      saved.fprintf (ansiGreen ++ CStr.lit "Savepoint '" ++ name ++ CStr.lit "' created.\n" ++
        ansiReset)
  | none =>
      db.fprintf (ansiRed ++ CStr.lit ("Error: Could not create savepoint. " ++
        "Ensure a transaction is active.\n") ++ ansiReset)

def executeReleaseSavepoint (db : Db n) (name : CStr) : Db n :=
  match txnReleaseSavepoint db name with
  | some released =>
      released.fprintf (ansiGreen ++ CStr.lit "Savepoint '" ++ name ++ CStr.lit "' released.\n" ++
        ansiReset)
  | none =>
      db.fprintf (ansiRed ++ CStr.lit "Error: Savepoint '" ++ name ++ CStr.lit "' not found.\n" ++
        ansiReset)

/-! ## The dispatcher -/

def executeQuery (db : Db n) (ctx : SessionContext) : ASTNode → Option (Db n × SessionContext)
  | .createTable tableName columns =>
      (executeCreateTable db ctx tableName columns).map (·, ctx)
  | .insert tableName rows => (executeInsert db ctx tableName rows).map (·, ctx)
  | .delete tableName whereClause => (executeDelete db ctx tableName whereClause).map (·, ctx)
  | .update tableName sets whereClause =>
      (executeUpdate db ctx tableName sets whereClause).map (·, ctx)
  | .dropTable tableName => (executeDropTable db ctx tableName).map (·, ctx)
  | .docInsert collection jsonBody =>
      (executeDocInsert db ctx collection jsonBody).map (·, ctx)
  | .docRemove collection docId => (executeDocRemove db ctx collection docId).map (·, ctx)
  | .checkpoint => some (executeCheckpoint db, ctx)
  | .createIndex tableName colName =>
      (executeCreateIndex db ctx tableName colName).map (·, ctx)
  | .createUser username password => (executeCreateUser db username password).map (·, ctx)
  | .createDb dbName => (executeCreateDb db dbName).map (·, ctx)
  | .useDb dbName => executeUseDb db ctx dbName
  | .dropDb dbName => (executeDropDb db ctx dbName).map (·, ctx)
  | .begin => some (executeBegin db ctx, ctx)
  | .commit => some (executeCommit db, ctx)
  | .rollback => some (executeRollback db, ctx)
  | .rollbackTo name => some (executeRollbackTo db name, ctx)
  | .savepoint name => some (executeSavepoint db name, ctx)
  | .releaseSavepoint name => some (executeReleaseSavepoint db name, ctx)
  | .foreign calls currentDb =>
      some (calls.foldl Db.call db, { ctx with currentDb := currentDb })

/-! ## A server -/

/-- A new server on an empty directory. -/
def serverInit : Db 1024 where
  store := defaultStore
  txnManager := txnManagerInit
  out := []
  calls := []

def publicSession : SessionContext where
  currentDb := CStr.lit "public"
  currentUser := CStr.lit "admin"

end Executor
end InventixDB
