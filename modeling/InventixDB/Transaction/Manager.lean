import InventixDB.Storage.MapRefinement

/-!
# Manager — the transaction manager and its undo log

There is one transaction manager for the whole server and at most one open transaction in it.
An undo record asks for at most one call on the store when it is undone: `undoCall` in a full
rollback, `undoCallTo` in a rollback to a savepoint.
-/

namespace InventixDB
namespace Transaction

open Storage

/-! ## Records -/

inductive TransactionState
  | active
  | committed
  | aborted
  deriving DecidableEq, Repr

inductive TransactionOpType
  | insert
  | delete
  | update
  | createTable
  | dropTable
  | createIndex
  deriving DecidableEq, Repr

/-- An undo record; absent fields are `NULL` in the source. -/
structure TxnOperation where
  type : TransactionOpType
  tableName : Option CStr
  key : Option CStr
  oldValue : Option (List UInt8)
  schemaJson : Option CStr
  deriving DecidableEq

structure Savepoint where
  name : CStr
  operationCount : Nat
  deriving DecidableEq

/-- `operations` and `savepoints` have the newest entry first. -/
structure Txn where
  txnId : Nat
  state : TransactionState
  user : CStr
  database : CStr
  operations : List TxnOperation
  operationCount : Nat
  savepoints : List Savepoint
  inserts : Nat
  deletes : Nat
  updates : Nat
  deriving DecidableEq

structure TransactionManager where
  currentTxn : Option Txn
  nextTxnId : Nat
  autoCommit : Bool
  totalCommits : Nat
  totalRollbacks : Nat
  totalTransactions : Nat
  deriving DecidableEq

def txnManagerInit : TransactionManager where
  currentTxn := none
  nextTxnId := 1
  autoCommit := true
  totalCommits := 0
  totalRollbacks := 0
  totalTransactions := 0

/-- The global state of the server. -/
structure Db (n : Nat) where
  store : KVStore n
  txnManager : TransactionManager
  /-- What has been written to the client. -/
  out : List CStr
  /-- The calls made on the store so far: a history variable that nothing reads. -/
  calls : List KVCall

variable {n : Nat} [NeZero n]

namespace Db

/-- Make one call on the store. -/
def call (db : Db n) (c : KVCall) : Db n :=
  { db with store := c.exec db.store, calls := db.calls ++ [c] }

/-- The call of `kv_get` changes nothing, so it is not recorded. -/
def get (db : Db n) (key : CStr) : Option Value :=
  kvGet db.store key

def fprintf (db : Db n) (text : CStr) : Db n :=
  { db with out := db.out ++ [text] }

end Db

/-! ## Begin and commit -/

/-- `txn_begin`; `none` is its error code, the manager then stays as it is. -/
def txnBegin (manager : TransactionManager) (user database : CStr) :
    Option TransactionManager :=
  match manager.currentTxn with
  | some _ => none
  | none =>
      some
        { manager with
          currentTxn := some
            { txnId := manager.nextTxnId
              state := .active
              user := user
              database := database
              operations := []
              operationCount := 0
              savepoints := []
              inserts := 0
              deletes := 0
              updates := 0 }
          nextTxnId := manager.nextTxnId + 1
          totalTransactions := manager.totalTransactions + 1
          autoCommit := false }

/-- The open transaction, if it is in the active state. -/
def TransactionManager.activeTxn (manager : TransactionManager) : Option Txn :=
  manager.currentTxn.filter fun txn => txn.state = .active

def txnCommit (manager : TransactionManager) : Option TransactionManager :=
  match manager.activeTxn with
  | none => none
  | some _ =>
      some
        { manager with
          currentTxn := none
          totalCommits := manager.totalCommits + 1
          autoCommit := true }

/-- `txn_get_id` -/
def txnGetId (manager : TransactionManager) : Nat :=
  match manager.currentTxn with
  | none => 0
  | some txn => txn.txnId

/-! ## Undoing -/

/-- The schema key a full rollback writes, in a 512-byte buffer. -/
def rollbackSchemaKey (database tableName : CStr) : CStr :=
  CStr.snprintf 512 (CStr.lit "DB:" ++ database ++ CStr.lit ":META:TBL:" ++ tableName)

/-- The call `txn_rollback` makes to undo a record. -/
def undoCall (database : CStr) (op : TxnOperation) : Option KVCall :=
  match op.type with
  | .insert => op.key.map .delete
  | .delete | .update =>
      match op.key, op.oldValue with
      | some key, some old => some (.put key { data := old, type := .row })
      | _, _ => none
  | .createTable => op.tableName.map fun tableName => .delete (rollbackSchemaKey database tableName)
  | .dropTable =>
      match op.tableName, op.schemaJson with
      | some tableName, some schema =>
          some (.put (rollbackSchemaKey database tableName)
            { data := schema.val ++ [0], type := .schema })
      | _, _ => none
  | .createIndex => none

/-- The call `txn_rollback_to_savepoint` makes to undo a record. -/
def undoCallTo (op : TxnOperation) : Option KVCall :=
  match op.type with
  | .insert => op.key.map .delete
  | .delete | .update =>
      match op.key, op.oldValue with
      | some key, some old => some (.put key { data := old, type := .row })
      | _, _ => none
  | .createTable =>
      op.tableName.map fun tableName =>
        .delete (CStr.snprintf 256 (CStr.lit "__schema__" ++ tableName))
  | .dropTable => none
  | .createIndex => none

/-- Carry out an undo step, if the record asks for one. -/
def Db.undo (db : Db n) (c : Option KVCall) : Db n :=
  match c with
  | some c => db.call c
  | none => db

def txnRollback (db : Db n) : Option (Db n) :=
  match db.txnManager.activeTxn with
  | none => none
  | some txn =>
      let undone := txn.operations.foldl (fun db op => db.undo (undoCall txn.database op)) db
      some
        { undone with
          txnManager :=
            { undone.txnManager with
              currentTxn := none
              totalRollbacks := undone.txnManager.totalRollbacks + 1
              autoCommit := true } }

/-- Replace the open transaction. -/
def Db.setTxn (db : Db n) (txn : Txn) : Db n :=
  { db with txnManager := { db.txnManager with currentTxn := some txn } }

def txnSavepoint (db : Db n) (name : CStr) : Option (Db n) :=
  match db.txnManager.activeTxn with
  | none => none
  | some txn =>
      if name.val = [] then none
      else if txn.savepoints.any fun sp => sp.name = name then none
      else
        some (db.setTxn
          { txn with
            savepoints :=
              { name := name, operationCount := txn.operationCount } :: txn.savepoints })

/-- Undo and drop records, newest first, while more than `target` are counted. -/
def undoDownTo (target : Nat) : List TxnOperation → Nat → Db n → List TxnOperation × Nat × Db n
  | [], count, db => ([], count, db)
  | op :: ops, count, db =>
      if count > target then undoDownTo target ops (count - 1) (db.undo (undoCallTo op))
      else (op :: ops, count, db)

def txnRollbackToSavepoint (db : Db n) (name : CStr) : Option (Db n) :=
  match db.txnManager.activeTxn with
  | none => none
  | some txn =>
      match txn.savepoints.find? fun sp => sp.name = name with
      | none => none
      | some sp =>
          let (operations, operationCount, undone) :=
            undoDownTo sp.operationCount txn.operations txn.operationCount db
          some (undone.setTxn
            { txn with
              operations := operations
              operationCount := operationCount
              savepoints := txn.savepoints.dropWhile fun sp => sp.name ≠ name })

def txnReleaseSavepoint (db : Db n) (name : CStr) : Option (Db n) :=
  match db.txnManager.activeTxn with
  | none => none
  | some txn =>
      if txn.savepoints.any fun sp => sp.name = name then
        some (db.setTxn { txn with savepoints := txn.savepoints.eraseP fun sp => sp.name = name })
      else none

/-! ## Logging -/

/-- `create_operation` keeps an old value only if it is not empty. -/
def createOperation (type : TransactionOpType) (tableName : CStr) (key : Option CStr)
    (oldValue : Option (List UInt8)) : TxnOperation where
  type := type
  tableName := some tableName
  key := key
  oldValue := oldValue.filter fun old => old ≠ []
  schemaJson := none

/-- Push a record on the undo log; without an active transaction nothing is logged. -/
def Db.pushOperation (db : Db n) (op : TxnOperation) : Db n :=
  match db.txnManager.activeTxn with
  | none => db
  | some txn =>
      db.setTxn
        { txn with
          operations := op :: txn.operations
          operationCount := txn.operationCount + 1
          inserts := if op.type = .insert then txn.inserts + 1 else txn.inserts
          deletes := if op.type = .delete then txn.deletes + 1 else txn.deletes
          updates := if op.type = .update then txn.updates + 1 else txn.updates }

def txnLogInsert (db : Db n) (tableName key : CStr) : Db n :=
  db.pushOperation (createOperation .insert tableName (some key) none)

def txnLogDelete (db : Db n) (tableName key : CStr) (oldValue : List UInt8) : Db n :=
  db.pushOperation (createOperation .delete tableName (some key) (some oldValue))

def txnLogUpdate (db : Db n) (tableName key : CStr) (oldValue : List UInt8) : Db n :=
  db.pushOperation (createOperation .update tableName (some key) (some oldValue))

def txnLogCreateTable (db : Db n) (tableName schema : CStr) : Db n :=
  db.pushOperation
    { createOperation .createTable tableName none none with schemaJson := some schema }

/-- The schema is copied as a string, and only for an active transaction.  The executor never
passes the rows of the dropped table. -/
def txnLogDropTable (db : Db n) (tableName : CStr) (schemaData : List UInt8) : Option (Db n) :=
  match db.txnManager.activeTxn with
  | none => some db
  | some _ =>
      (CStr.ofBuffer? schemaData).map fun schema =>
        db.pushOperation
          { createOperation .dropTable tableName none none with schemaJson := some schema }

end Transaction
end InventixDB
