import InventixDB.Lib.SlotTable

/-!
# Manager — the MVCC manager

Transactions register in a table of slots when they begin and leave it when they commit or
abort.  A snapshot records the next id and the ids registered as active; visibility is decided
from it, and from the state of transactions still in the table.  Ids and timestamps are counters
that do not wrap.  Locks are kept apart from all this.
-/

namespace InventixDB
namespace Mvcc

open Lib

/-! ## Data -/

abbrev TxnId := Nat

abbrev Timestamp := Nat

inductive IsolationLevel
  | readUncommitted
  | readCommitted
  | repeatableRead
  | serializable
  deriving DecidableEq, Repr

def IsolationLevel.toNat : IsolationLevel → Nat
  | .readUncommitted => 0
  | .readCommitted => 1
  | .repeatableRead => 2
  | .serializable => 3

inductive TransactionState
  | active
  | preparing
  | committed
  | aborted
  | committing
  deriving DecidableEq, Repr

/-- A row version; `deletedBy` is 0 if it is not deleted. -/
structure RowVersion where
  createdBy : TxnId
  deletedBy : TxnId
  createTs : Timestamp
  deleteTs : Timestamp
  data : List UInt8
  deriving DecidableEq, Repr

/-- The header of a stored tuple, as far as visibility reads it; `xmax` is 0 for a live tuple. -/
structure MVCCTupleHeader where
  xmin : TxnId
  xmax : TxnId
  hintCommitted : Bool
  hintAborted : Bool
  deriving DecidableEq, Repr

structure TransactionSnapshot where
  xmin : TxnId
  xmax : TxnId
  activeTxns : List TxnId
  snapshotTs : Timestamp
  deriving DecidableEq, Repr

structure TransactionDescriptor where
  txnId : TxnId
  state : TransactionState
  isolation : IsolationLevel
  startTs : Timestamp
  snapshot : Option TransactionSnapshot
  deriving DecidableEq, Repr

structure MVCCManager where
  nextTxnId : TxnId
  currentTimestamp : Timestamp
  activeTxns : List (Option TransactionDescriptor)
  commitLog : List (TxnId × Timestamp)
  deriving DecidableEq, Repr

def maxActiveTransactions : Nat := 256

def mvccInit : MVCCManager where
  nextTxnId := 1
  currentTimestamp := 0
  activeTxns := List.replicate maxActiveTransactions none
  commitLog := []

namespace MVCCManager

/-! ## Ids and timestamps -/

def generateTxnId (m : MVCCManager) : TxnId × MVCCManager :=
  (m.nextTxnId, { m with nextTxnId := m.nextTxnId + 1 })

def generateTimestamp (m : MVCCManager) : Timestamp × MVCCManager :=
  (m.currentTimestamp + 1, { m with currentTimestamp := m.currentTimestamp + 1 })

/-! ## Transactions -/

def getTransaction (m : MVCCManager) (txnId : TxnId) : Option TransactionDescriptor :=
  SlotTable.find TransactionDescriptor.txnId txnId m.activeTxns

/-- A transaction that is not in the table counts as aborted. -/
def getState (m : MVCCManager) (txnId : TxnId) : TransactionState :=
  match m.getTransaction txnId with
  | some txn => txn.state
  | none => .aborted

/-- One slot of the snapshot loop: an active transaction other than `txnId` itself is noted. -/
def noteActive (txnId : TxnId) (snap : TransactionSnapshot) (slot : Option TransactionDescriptor) :
    TransactionSnapshot :=
  match slot with
  | some txn =>
      if txn.state = .active ∧ txn.txnId ≠ txnId then
        { snap with
          xmin := if txn.txnId < snap.xmin then txn.txnId else snap.xmin
          activeTxns := snap.activeTxns ++ [txn.txnId] }
      else snap
  | none => snap

def takeSnapshot (m : MVCCManager) (txnId : TxnId) : TransactionSnapshot :=
  m.activeTxns.foldl (noteActive txnId)
    { xmin := m.nextTxnId, xmax := m.nextTxnId, activeTxns := [], snapshotTs := m.currentTimestamp }

/-! `mvcc_begin_transaction` works in four steps, each under a lock of its own. -/

/-- A new descriptor with a fresh id. -/
def beginAllocate (m : MVCCManager) (isolation : IsolationLevel) :
    TransactionDescriptor × MVCCManager :=
  let (txnId, m) := m.generateTxnId
  ({ txnId := txnId, state := .active, isolation := isolation, startTs := 0, snapshot := none }, m)

def beginStamp (m : MVCCManager) (txn : TransactionDescriptor) :
    TransactionDescriptor × MVCCManager :=
  let (startTs, m) := m.generateTimestamp
  ({ txn with startTs := startTs }, m)

/-- REPEATABLE READ and SERIALIZABLE take their snapshot at once, the other levels never. -/
def beginSnapshot (m : MVCCManager) (txn : TransactionDescriptor) : TransactionDescriptor :=
  if IsolationLevel.repeatableRead.toNat ≤ txn.isolation.toNat then
    { txn with snapshot := some (m.takeSnapshot txn.txnId) }
  else txn

/-- Without a free slot the transaction is not registered, and nobody notices. -/
def beginRegister (m : MVCCManager) (txn : TransactionDescriptor) : MVCCManager :=
  { m with activeTxns := SlotTable.insert txn m.activeTxns }

def removeTransaction (m : MVCCManager) (txnId : TxnId) : MVCCManager :=
  { m with
    activeTxns := SlotTable.update TransactionDescriptor.txnId txnId (fun _ => none) m.activeTxns }

/-- The writes are not undone here. -/
def abortTransaction (m : MVCCManager) (txnId : TxnId) : Int × MVCCManager :=
  match m.getTransaction txnId with
  | none => (-1, m)
  | some _ => (0, m.removeTransaction txnId)

/-- The loop over the read set decides nothing. -/
def checkWriteConflict (m : MVCCManager) (txnId : TxnId) : Bool :=
  (m.getTransaction txnId).isNone

def checkReadConflict (m : MVCCManager) (txnId : TxnId) : Bool :=
  (m.getTransaction txnId).isNone

/-- A commit is logged, and the transaction leaves the table. -/
def commitTransaction (m : MVCCManager) (txnId : TxnId) : Int × MVCCManager :=
  match m.getTransaction txnId with
  | none => (-1, m)
  | some txn =>
      if txn.state ≠ .active then (-1, m)
      else if txn.isolation = .serializable &&
          (m.checkWriteConflict txnId || m.checkReadConflict txnId) then
        (-1, (m.abortTransaction txnId).2)
      else
        let (commitTs, m) := m.generateTimestamp
        (0, { m with commitLog := m.commitLog ++ [(txnId, commitTs)] }.removeTransaction txnId)

/-- `mvcc_2pc_prepare` -/
def prepareTransaction (m : MVCCManager) (txnId : TxnId) : Int × MVCCManager :=
  match m.getTransaction txnId with
  | none => (-1, m)
  | some _ =>
      (0, { m with
        activeTxns := SlotTable.update TransactionDescriptor.txnId txnId
          (fun txn => some { txn with state := .preparing }) m.activeTxns })

/-! ## Row versions -/

def createVersion (m : MVCCManager) (txnId : TxnId) (data : List UInt8) :
    RowVersion × MVCCManager :=
  let (createTs, m) := m.generateTimestamp
  ({ createdBy := txnId, deletedBy := 0, createTs := createTs, deleteTs := 0, data := data }, m)

def markDeleted (m : MVCCManager) (version : RowVersion) (txnId : TxnId) :
    RowVersion × MVCCManager :=
  let (deleteTs, m) := m.generateTimestamp
  ({ version with deletedBy := txnId, deleteTs := deleteTs }, m)

end MVCCManager

/-! ## Visibility -/

/-- Without a snapshot everything is visible. -/
def isVisible (txnId : TxnId) (snapshot : Option TransactionSnapshot) : Bool :=
  match snapshot with
  | none => true
  | some snap =>
      if txnId < snap.xmin then true
      else if txnId ≥ snap.xmax then false
      else !snap.activeTxns.contains txnId

def MVCCManager.versionVisible (m : MVCCManager) (version : RowVersion) (readerTxn : TxnId) :
    Bool :=
  match m.getTransaction readerTxn with
  | none => false
  | some reader =>
      if version.createdBy = readerTxn then
        version.deletedBy = 0 || version.deletedBy ≠ readerTxn
      else if !isVisible version.createdBy reader.snapshot then false
      else if version.deletedBy ≠ 0 && isVisible version.deletedBy reader.snapshot then false
      else true

/-- The deleter hides the tuple. -/
def MVCCManager.deleterHides (m : MVCCManager) (tuple : MVCCTupleHeader)
    (reader : TransactionDescriptor) (readerTxn : TxnId) : Bool :=
  tuple.xmax ≠ 0 &&
    (tuple.xmax = readerTxn ||
      m.getState tuple.xmax = .committed &&
        (reader.snapshot.isNone || isVisible tuple.xmax reader.snapshot))

def MVCCManager.tupleVisible (m : MVCCManager) (tuple : MVCCTupleHeader) (readerTxn : TxnId) :
    Bool :=
  match m.getTransaction readerTxn with
  | none => false
  | some reader =>
      if tuple.xmin = readerTxn then tuple.xmax = 0 || tuple.xmax ≠ readerTxn
      else if tuple.hintAborted then false
      else if !tuple.hintCommitted && m.getState tuple.xmin = .aborted then false
      else if !tuple.hintCommitted && m.getState tuple.xmin ≠ .committed &&
          reader.isolation.toNat > IsolationLevel.readUncommitted.toNat then false
      else if reader.snapshot.isSome && !isVisible tuple.xmin reader.snapshot then false
      else !m.deleterHides tuple reader readerTxn

end Mvcc
end InventixDB
