import InventixDB.Transaction.Savepoint

/-!
# LogStructure — the undo log and the savepoints on it

A savepoint is a position in the undo log, kept as the count of operations.  Only ROLLBACK TO
makes the log shorter, and it drops the savepoints above the position it goes back to.
-/

namespace InventixDB
namespace Transaction

open Storage

variable {n : Nat} [NeZero n]

/-! ## Calls -/

/-- A call of one of the `txn_log` functions; an argument may be `NULL`. -/
inductive TxnLog
  | insert (tableName key : Option CStr)
  | delete (tableName key : Option CStr) (oldValue : Option (List UInt8))
  | update (tableName key : Option CStr) (oldValue : Option (List UInt8))
  | createTable (tableName schemaJson : Option CStr)
  | dropTable (tableName schemaJson rowsJson : Option CStr)
  | createIndex (tableName columnName : Option CStr)
  deriving DecidableEq

/-- The record that the function pushes; an index keeps its column in `key`. -/
def TxnLog.record : TxnLog → TxnOperation
  | insert tableName key =>
      { type := .insert, tableName := tableName, key := key, oldValue := none, schemaJson := none }
  | delete tableName key oldValue =>
      { type := .delete
        tableName := tableName
        key := key
        oldValue := oldValue.filter fun old => old ≠ []
        schemaJson := none }
  | update tableName key oldValue =>
      { type := .update
        tableName := tableName
        key := key
        oldValue := oldValue.filter fun old => old ≠ []
        schemaJson := none }
  | createTable tableName schemaJson =>
      { type := .createTable
        tableName := tableName
        key := none
        oldValue := none
        schemaJson := schemaJson }
  | dropTable tableName schemaJson rowsJson =>
      { type := .dropTable
        tableName := tableName
        key := none
        oldValue := rowsJson.map Subtype.val
        schemaJson := schemaJson }
  | createIndex tableName columnName =>
      { type := .createIndex
        tableName := tableName
        key := columnName
        oldValue := none
        schemaJson := none }

inductive TxnCall
  | begin (user database : Option CStr)
  | log (entry : TxnLog)
  | savepoint (name : Option CStr)
  | rollbackToSavepoint (name : Option CStr)
  | releaseSavepoint (name : Option CStr)
  | commit
  | rollback
  deriving DecidableEq

/-- `INT_MAX`; `operation_count` is an `int`. -/
def operationCountMax : Nat := 2147483647

/-- Whether a name is compared with that of a savepoint. -/
def Db.comparesNames (db : Db n) : Bool :=
  db.txnManager.activeTxn.any fun txn => txn.savepoints ≠ []

/-- One call; a failed one changes nothing.  `none` is a call without a meaning in C: the count of
operations leaves `int`, or `NULL` is compared with a name. -/
def TxnCall.step (db : Db n) : TxnCall → Option (Db n)
  | .begin user database =>
      match txnBegin db.txnManager (user.getD (CStr.lit "unknown"))
          (database.getD (CStr.lit "public")) with
      | none => some db
      | some manager => some { db with txnManager := manager }
  | .log entry =>
      if db.txnManager.activeTxn.all fun txn => txn.operationCount < operationCountMax then
        some (db.pushOperation entry.record)
      else none
  | .savepoint none => some db
  | .savepoint (some name) => some ((txnSavepoint db name).getD db)
  | .rollbackToSavepoint none => if db.comparesNames then none else some db
  | .rollbackToSavepoint (some name) => some ((txnRollbackToSavepoint db name).getD db)
  | .releaseSavepoint none => if db.comparesNames then none else some db
  | .releaseSavepoint (some name) => some ((txnReleaseSavepoint db name).getD db)
  | .commit =>
      match txnCommit db.txnManager with
      | none => some db
      | some manager => some { db with txnManager := manager }
  | .rollback => some ((txnRollback db).getD db)

def runTxnCalls (db : Db n) : List TxnCall → Option (Db n)
  | [] => some db
  | call :: calls => (call.step db).bind fun db' => runTxnCalls db' calls

/-! ## The structure of the log -/

/-- `savepoints` has the newest one first. -/
structure Txn.Structured (txn : Txn) : Prop where
  count_eq : txn.operationCount = txn.operations.length
  le_count : ∀ sp ∈ txn.savepoints, sp.operationCount ≤ txn.operationCount
  nonincreasing : txn.savepoints.Pairwise fun newer older =>
    older.operationCount ≤ newer.operationCount
  names_nodup : (txn.savepoints.map Savepoint.name).Nodup

/-- The open transaction, if there is one, is well structured. -/
def Db.Structured (db : Db n) : Prop :=
  ∀ txn, db.txnManager.currentTxn = some txn → txn.Structured

section Steps

variable {db : Db n} {txn : Txn}

omit [NeZero n] in
theorem Db.Structured.active (h : db.Structured) (ht : db.txnManager.activeTxn = some txn) :
    txn.Structured :=
  h txn (activeTxn_eq_some.mp ht).1

omit [NeZero n] in
theorem Txn.Structured.setTxn {txn' : Txn} (h : txn'.Structured) (db : Db n) :
    (db.setTxn txn').Structured := by
  intro other hother
  cases hother
  exact h

/-- Without some of the savepoints, and with a log that none of the others is above. -/
theorem Txn.Structured.cut {txn' : Txn} (h : txn.Structured)
    (hcount : txn'.operationCount = txn'.operations.length)
    (hsub : List.Sublist txn'.savepoints txn.savepoints)
    (hle : ∀ sp ∈ txn'.savepoints, sp.operationCount ≤ txn'.operationCount) :
    txn'.Structured where
  count_eq := hcount
  le_count := hle
  nonincreasing := h.nonincreasing.sublist hsub
  names_nodup := h.names_nodup.sublist (hsub.map Savepoint.name)

omit [NeZero n] in
theorem Db.Structured.pushOperation (h : db.Structured) (op : TxnOperation) :
    (db.pushOperation op).Structured := by
  unfold Db.pushOperation
  cases ht : db.txnManager.activeTxn with
  | none => exact h
  | some txn =>
      have htxn := h.active ht
      dsimp only
      refine Txn.Structured.setTxn ?_ db
      refine ⟨?_, fun sp hsp => ?_, htxn.nonincreasing, htxn.names_nodup⟩
      · dsimp only
        rw [htxn.count_eq, List.length_cons]
      · exact Nat.le_succ_of_le (htxn.le_count sp hsp)

omit [NeZero n] in
theorem Db.Structured.txnSavepoint (h : db.Structured) (name : CStr) :
    ((txnSavepoint db name).getD db).Structured := by
  cases hsave : Transaction.txnSavepoint db name with
  | none => exact h
  | some db' =>
      obtain ⟨txn, ht, hfresh, rfl⟩ := txnSavepoint_eq_some hsave
      have htxn := h.active ht
      rw [Option.getD_some]
      refine Txn.Structured.setTxn ?_ db
      refine ⟨htxn.count_eq, fun sp hsp => ?_, ?_, ?_⟩
      · rcases List.mem_cons.mp hsp with rfl | hold
        · exact le_rfl
        · exact htxn.le_count sp hold
      · exact List.pairwise_cons.mpr ⟨fun sp hsp => htxn.le_count sp hsp, htxn.nonincreasing⟩
      · refine List.nodup_cons.mpr ⟨fun hmem => ?_, htxn.names_nodup⟩
        obtain ⟨sp, hsp, hname⟩ := List.mem_map.mp hmem
        exact hfresh sp hsp hname

/-- What is left from the savepoint on is no higher than it. -/
theorem Txn.Structured.le_of_mem_dropWhile {name : CStr} {sp sp' : Savepoint} (h : txn.Structured)
    (hfind : (txn.savepoints.find? fun sp => sp.name = name) = some sp)
    (hmem : sp' ∈ txn.savepoints.dropWhile fun sp => sp.name ≠ name) :
    sp'.operationCount ≤ sp.operationCount := by
  have hsorted := h.nonincreasing
  generalize txn.savepoints = savepoints at hfind hmem hsorted
  induction savepoints with
  | nil => cases hmem
  | cons first rest ih =>
      obtain ⟨hfirst, hrest⟩ := List.pairwise_cons.mp hsorted
      by_cases hname : first.name = name
      · rw [List.find?_cons_of_pos (by simpa using hname)] at hfind
        rw [List.dropWhile_cons_of_neg (by simpa using hname)] at hmem
        cases hfind
        rcases List.mem_cons.mp hmem with rfl | hold
        · exact le_rfl
        · exact hfirst sp' hold
      · rw [List.find?_cons_of_neg (by simpa using hname)] at hfind
        rw [List.dropWhile_cons_of_pos (by simpa using hname)] at hmem
        exact ih hfind hmem hrest

theorem Db.Structured.txnRollbackToSavepoint (h : db.Structured) (name : CStr) :
    ((txnRollbackToSavepoint db name).getD db).Structured := by
  cases ht : db.txnManager.activeTxn with
  | none =>
      rw [Transaction.txnRollbackToSavepoint, ht]
      exact h
  | some txn =>
      have htxn := h.active ht
      cases hfind : txn.savepoints.find? fun sp => sp.name = name with
      | none =>
          rw [Transaction.txnRollbackToSavepoint, ht]
          dsimp only
          rw [hfind]
          exact h
      | some sp =>
          have hbelow := htxn.le_count sp (List.mem_of_find?_eq_some hfind)
          rw [txnRollbackToSavepoint_eq ht htxn.count_eq hfind]
          refine Txn.Structured.setTxn ?_ _
          refine htxn.cut ?_ (List.dropWhile_sublist _) ?_
          · dsimp only
            rw [List.length_drop]
            omega
          · intro sp' hsp'
            have hle := htxn.le_of_mem_dropWhile hfind hsp'
            rw [htxn.count_eq] at hbelow
            dsimp only
            omega

omit [NeZero n] in
theorem Db.Structured.txnReleaseSavepoint (h : db.Structured) (name : CStr) :
    ((txnReleaseSavepoint db name).getD db).Structured := by
  unfold Transaction.txnReleaseSavepoint
  cases ht : db.txnManager.activeTxn with
  | none => exact h
  | some txn =>
      have htxn := h.active ht
      dsimp only
      split
      · refine Txn.Structured.setTxn ?_ db
        refine htxn.cut htxn.count_eq List.eraseP_sublist ?_
        exact fun sp hsp => htxn.le_count sp (List.mem_of_mem_eraseP hsp)
      · exact h

omit [NeZero n] in
/-- A closed transaction has no log. -/
theorem Db.Structured.of_currentTxn_eq_none (hnone : db.txnManager.currentTxn = none) :
    db.Structured := by
  intro txn ht
  rw [hnone] at ht
  cases ht

omit [NeZero n] in
theorem Db.Structured.begin (user database : CStr) {manager : TransactionManager}
    (hbegin : txnBegin db.txnManager user database = some manager) :
    Db.Structured { db with txnManager := manager } := by
  unfold txnBegin at hbegin
  cases ht : db.txnManager.currentTxn with
  | some txn =>
      rw [ht] at hbegin
      cases hbegin
  | none =>
      rw [ht] at hbegin
      cases hbegin
      intro txn htxn
      cases htxn
      exact ⟨rfl, fun sp hsp => (List.not_mem_nil hsp).elim, List.Pairwise.nil, List.nodup_nil⟩

theorem Db.Structured.step {db' : Db n} {call : TxnCall} (h : db.Structured)
    (hstep : call.step db = some db') : db'.Structured := by
  cases call with
  | begin user database =>
      rw [TxnCall.step] at hstep
      split at hstep
      · cases hstep
        exact h
      next hbegin =>
        cases hstep
        exact Db.Structured.begin _ _ hbegin
  | log entry =>
      rw [TxnCall.step] at hstep
      split at hstep
      · cases hstep
        exact h.pushOperation entry.record
      · cases hstep
  | savepoint name =>
      cases name with
      | none =>
          cases hstep
          exact h
      | some name =>
          cases hstep
          exact h.txnSavepoint name
  | rollbackToSavepoint name =>
      cases name with
      | none =>
          rw [TxnCall.step] at hstep
          split at hstep
          · cases hstep
          · cases hstep
            exact h
      | some name =>
          cases hstep
          exact h.txnRollbackToSavepoint name
  | releaseSavepoint name =>
      cases name with
      | none =>
          rw [TxnCall.step] at hstep
          split at hstep
          · cases hstep
          · cases hstep
            exact h
      | some name =>
          cases hstep
          exact h.txnReleaseSavepoint name
  | commit =>
      rw [TxnCall.step] at hstep
      unfold txnCommit at hstep
      cases ht : db.txnManager.activeTxn with
      | none =>
          rw [ht] at hstep
          cases hstep
          exact h
      | some txn =>
          rw [ht] at hstep
          cases hstep
          exact Db.Structured.of_currentTxn_eq_none rfl
  | rollback =>
      cases hstep
      unfold txnRollback
      cases ht : db.txnManager.activeTxn with
      | none => exact h
      | some txn => exact Db.Structured.of_currentTxn_eq_none rfl

theorem Db.Structured.run {db' : Db n} {calls : List TxnCall} (h : db.Structured)
    (hrun : runTxnCalls db calls = some db') : db'.Structured := by
  induction calls generalizing db with
  | nil =>
      cases hrun
      exact h
  | cons call calls ih =>
      obtain ⟨db₁, hstep, hrest⟩ := Option.bind_eq_some_iff.mp hrun
      exact ih (h.step hstep) hrest

end Steps

/-! ## Runs -/

theorem log_structure (store : KVStore n) (out : List CStr) (calls : List TxnCall) (db : Db n)
    (hrun : runTxnCalls { store := store, txnManager := txnManagerInit, out := out, calls := [] }
      calls = some db) (txn : Txn) (hopen : db.txnManager.currentTxn = some txn) :
    txn.operationCount = txn.operations.length ∧
      (∀ sp ∈ txn.savepoints, sp.operationCount ≤ txn.operationCount) ∧
      (txn.savepoints.Pairwise fun newer older => older.operationCount ≤ newer.operationCount) ∧
      (txn.savepoints.map Savepoint.name).Nodup := by
  have hstart : Db.Structured
      { store := store, txnManager := txnManagerInit, out := out, calls := [] } :=
    Db.Structured.of_currentTxn_eq_none rfl
  have htxn := hstart.run hrun txn hopen
  exact ⟨htxn.count_eq, htxn.le_count, htxn.nonincreasing, htxn.names_nodup⟩

/-- Three savepoints, one of them taken out of the middle, and a rollback to the oldest. -/
theorem log_structure_nested :
    let name (s : String) : Option CStr := some (CStr.lit s)
    ∃ db txn, runTxnCalls
      { store := Executor.serverInit.store, txnManager := txnManagerInit, out := [], calls := [] }
      [.begin none none, .log (.insert (name "t") (name "k")), .savepoint (name "a"),
        .log (.createIndex (name "t") (name "c")), .savepoint (name "b"), .savepoint (name "c"),
        .releaseSavepoint (name "b"), .log (.update (name "t") (name "k") (some [1])),
        .rollbackToSavepoint (name "a")] = some db ∧
      db.txnManager.currentTxn = some txn ∧ txn.operationCount = txn.operations.length := by
  intro name
  obtain ⟨db, hrun, hopen⟩ := (Option.any_eq_true _ _).mp
    (show (runTxnCalls
      { store := Executor.serverInit.store, txnManager := txnManagerInit, out := [], calls := [] }
      [.begin none none, .log (.insert (name "t") (name "k")), .savepoint (name "a"),
        .log (.createIndex (name "t") (name "c")), .savepoint (name "b"), .savepoint (name "c"),
        .releaseSavepoint (name "b"), .log (.update (name "t") (name "k") (some [1])),
        .rollbackToSavepoint (name "a")]).any
          (fun db => db.txnManager.currentTxn.isSome) = true by decide +kernel)
  obtain ⟨txn, htxn⟩ := Option.isSome_iff_exists.mp hopen
  exact ⟨db, txn, hrun, htxn, (log_structure _ _ _ db hrun txn htxn).1⟩

end Transaction
end InventixDB
