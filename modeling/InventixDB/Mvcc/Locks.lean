import InventixDB.Mvcc.Steps
import InventixDB.Storage.CStr
import Mathlib.Algebra.GroupWithZero.Nat

/-!
# Locks — the lock table

A lock is an entry in the hash chain of its resource, and a resource may have several.  A request
is checked against the first of them only.  A transaction lists the addresses of its entries; the
list is read when it ends, also the addresses of entries it has given back by then.
-/

namespace InventixDB
namespace Mvcc

open Storage

/-! ## Data -/

inductive LockMode
  | none
  | shared
  | exclusive
  | update
  | shareRowExclusive
  | accessExclusive
  deriving DecidableEq, Repr

def LockMode.toNat : LockMode → Nat
  | .none => 0
  | .shared => 1
  | .exclusive => 2
  | .update => 3
  | .shareRowExclusive => 4
  | .accessExclusive => 5

inductive LockGranularity
  | row
  | page
  | table
  | database
  deriving DecidableEq, Repr

/-- Where an entry lies in memory. -/
abbrev Addr := Nat

structure LockEntry where
  addr : Addr
  resourceId : CStr
  granularity : LockGranularity
  mode : LockMode
  holder : TxnId
  deriving DecidableEq

def lockTableSize : Nat := 4096

instance : NeZero lockTableSize := ⟨by decide⟩

abbrev LockTable := Fin lockTableSize → List LockEntry

/-- The lock table, and `held_locks` of every transaction. -/
structure LockManager where
  entries : LockTable
  heldLocks : TxnId → List Addr

def LockManager.init : LockManager where
  entries := fun _ => []
  heldLocks := fun _ => []

/-! ## The lock table -/

/-- `hash_string`; `char` is signed. -/
def hashString (str : CStr) : UInt32 :=
  str.val.foldl (fun hash c => ((hash <<< 5) + hash) + c.toInt8.toInt32.toUInt32) 5381

/-- `hash_string(resource) % LOCK_TABLE_SIZE` -/
def lockSlot (resource : CStr) : Fin lockTableSize :=
  Fin.ofNat lockTableSize (hashString resource).toNat

/-- The lock compatibility matrix, one row for each held mode. -/
def compat : List (List Bool) :=
  [[true, true, true, true, true, true],
    [true, true, false, true, false, false],
    [true, false, false, false, false, false],
    [true, true, false, false, false, false],
    [true, false, false, false, false, false],
    [true, false, false, false, false, false]]

def locksConflict (held requested : LockMode) : Bool :=
  !((compat.getD held.toNat []).getD requested.toNat false)

/-- The entries of a resource, in chain order. -/
def LockTable.entriesOf (table : LockTable) (resource : CStr) : List LockEntry :=
  (table (lockSlot resource)).filter fun e => e.resourceId = resource

def LockTable.findLockEntry (table : LockTable) (resource : CStr) : Option LockEntry :=
  (table (lockSlot resource)).find? fun e => e.resourceId = resource

/-- The entry an address points to. -/
def LockTable.entryAt (table : LockTable) (addr : Addr) : Option LockEntry :=
  (List.finRange lockTableSize).findSome? fun i => (table i).find? fun e => e.addr = addr

/-- Set the mode of the first entry of a resource in a chain. -/
def upgradeFirst (resource : CStr) (mode : LockMode) : List LockEntry → List LockEntry
  | [] => []
  | e :: es =>
      if e.resourceId = resource then { e with mode := mode } :: es
      else e :: upgradeFirst resource mode es

/-- Change the chain of a resource. -/
def LockTable.modify (table : LockTable) (resource : CStr)
    (f : List LockEntry → List LockEntry) : LockTable :=
  Function.update table (lockSlot resource) (f (table (lockSlot resource)))

/-! ## Operations -/

/-- One try of `mvcc_acquire_lock`: a conflict is `-1`, whether the caller tries again or gives
up.  `addr` is what `calloc` returns. -/
def LockManager.acquireLock (m : MVCCManager) (l : LockManager) (txnId : TxnId) (resource : CStr)
    (mode : LockMode) (gran : LockGranularity) (addr : Addr) : Int × LockManager :=
  let lock : LockEntry :=
    { addr := addr, resourceId := resource, granularity := gran, mode := mode, holder := txnId }
  let heldLocks := Function.update l.heldLocks txnId (l.heldLocks txnId ++ [addr])
  match m.getTransaction txnId with
  | none => (-1, l)
  | some _ =>
      match l.entries.findLockEntry resource with
      | none =>
          (0, { entries := l.entries.modify resource (lock :: ·), heldLocks := heldLocks })
      | some existing =>
          if existing.holder = txnId ∧ mode.toNat ≤ existing.mode.toNat then (0, l)
          else if existing.holder = txnId ∧ locksConflict existing.mode mode = false then
            (0, { l with entries := l.entries.modify resource (upgradeFirst resource mode) })
          else if locksConflict existing.mode mode then (-1, l)
          else
            (0, { entries := l.entries.modify resource (· ++ [lock]), heldLocks := heldLocks })

/-- `held_locks` keeps the address of the freed entry. -/
def LockManager.releaseLock (l : LockManager) (txnId : TxnId) (resource : CStr) :
    Int × LockManager :=
  if (l.entries (lockSlot resource)).any fun e => e.resourceId = resource && e.holder = txnId then
    (0, { l with
      entries := l.entries.modify resource fun chain =>
        chain.eraseP fun e => e.resourceId = resource && e.holder = txnId })
  else (-1, l)

/-- Free the entry at an address; without one this is a use after free. -/
def LockTable.releaseAddr (table : LockTable) (addr : Addr) : Option LockTable :=
  (table.entryAt addr).map fun lock =>
    table.modify lock.resourceId fun chain => chain.eraseP fun e => e.addr = addr

def LockManager.releaseAllLocks (l : LockManager) (txnId : TxnId) : Option LockManager :=
  ((l.heldLocks txnId).foldlM LockTable.releaseAddr l.entries).map fun entries =>
    { entries := entries, heldLocks := Function.update l.heldLocks txnId [] }

/-! ## The system with its locks -/

/-- A lock request that was answered with 0. -/
structure Grant where
  txnId : TxnId
  resource : CStr
  mode : LockMode
  deriving DecidableEq

/-- The transactions with their locks.  `grants` is a history variable: what was granted and has
not been released since. -/
structure LockSystem where
  system : System
  locks : LockManager
  grants : List Grant

def LockSystem.init : LockSystem where
  system := System.init
  locks := LockManager.init
  grants := []

inductive LockAction
  | mvcc (a : Action)
  | acquire (txnId : TxnId) (resource : CStr) (mode : LockMode) (gran : LockGranularity)
      (addr : Addr)
  | release (txnId : TxnId) (resource : CStr)
  deriving DecidableEq

/-- The transaction that a commit or an abort ends. -/
def Action.ends (m : MVCCManager) : Action → Option TxnId
  | .commit txnId =>
      if (m.getTransaction txnId).any fun txn => txn.state = .active then some txnId else none
  | .abort txnId => if (m.getTransaction txnId).isSome then some txnId else none
  | _ => none

/-- `none` is a step that the memory does not allow: an address in use given out again, or a
freed entry read. -/
def LockSystem.step (s : LockSystem) : LockAction → Option LockSystem
  | .mvcc a =>
      (s.system.step a).bind fun system =>
        match a.ends s.system.manager with
        | none => some { s with system := system }
        | some txnId =>
            (s.locks.releaseAllLocks txnId).map fun locks =>
              { system := system
                locks := locks
                grants := s.grants.filter fun g => g.txnId ≠ txnId }
  | .acquire txnId resource mode gran addr =>
      if (s.locks.entries.entryAt addr).isSome then none
      else
        let (result, locks) :=
          s.locks.acquireLock s.system.manager txnId resource mode gran addr
        some { s with
          locks := locks
          grants :=
            if result = 0 then
              { txnId := txnId, resource := resource, mode := mode } :: s.grants
            else s.grants }
  | .release txnId resource =>
      some { s with
        locks := (s.locks.releaseLock txnId resource).2
        grants := s.grants.filter fun g => ¬ (g.txnId = txnId ∧ g.resource = resource) }

/-- A given sequence of steps. -/
def runLocks : LockSystem → List LockAction → Option LockSystem
  | s, [] => some s
  | s, a :: actions => (s.step a).bind fun s' => runLocks s' actions

end Mvcc
end InventixDB
