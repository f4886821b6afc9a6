import InventixDB.Storage.Durability
import InventixDB.Transaction.Savepoint

/-!
# Crash — what a stopped server recovers

Every call of a statement goes to the log at once, whether a transaction is open or not, while
the undo log lives in memory only.  So recovery brings back the store as it was when the process
stopped, the writes of an open transaction included.
-/

namespace InventixDB
namespace Transaction

open Storage
open Executor

variable {n : Nat} [NeZero n]

/-! ## The calls of a statement -/

section Indexes

variable (store : KVStore n) (indexes : List Index)

omit [NeZero n] in
theorem kvSnapshotInternal_indexes :
    kvSnapshotInternal { store with indexes := indexes } =
      { kvSnapshotInternal store with indexes := indexes } := by
  unfold kvSnapshotInternal
  by_cases hopen : store.disk.tmpOpens = true
  · rw [if_pos hopen, if_pos hopen]
    rfl
  · rw [if_neg hopen, if_neg hopen]

omit [NeZero n] in
theorem kvAppendLog_indexes (record : LogRecord) :
    kvAppendLog { store with indexes := indexes } record =
      { kvAppendLog store record with indexes := indexes } := by
  unfold kvAppendLog
  by_cases hlog : store.logFp = true
  · rw [if_pos hlog, if_pos hlog]
    dsimp only
    split
    · exact kvSnapshotInternal_indexes
        { store with
          logSize := store.logSize + (encodeRecord record).length
          disk := store.disk.appendLog (encodeRecord record) } indexes
    · rfl
  · rw [if_neg hlog, if_neg hlog]

/-- Indexes play no part in a call. -/
theorem exec_indexes (c : KVCall) :
    c.exec { store with indexes := indexes } = { c.exec store with indexes := indexes } := by
  cases c with
  | put key val =>
      exact kvAppendLog_indexes
        (kvPutInternal { store with btreeTable := btreePut store.btreeTable key val } key val)
        indexes (.put key val)
  | delete key =>
      change kvDelete { store with indexes := indexes } key =
        { kvDelete store key with indexes := indexes }
      cases hp : Lib.OpenAddressing.probe CStr.slot store.entries key with
      | hit i =>
          have hdel : ∀ indexes, kvDelete { store with indexes := indexes } key =
              kvAppendLog
                { store with
                  indexes := indexes
                  entries := Function.update store.entries i none } (.del key) := by
            intro indexes
            unfold kvDelete
            dsimp only
            rw [hp]
          rw [hdel indexes, hdel store.indexes]
          exact kvAppendLog_indexes
            { store with entries := Function.update store.entries i none } indexes (.del key)
      | free i =>
          unfold kvDelete
          dsimp only
          rw [hp]
      | full =>
          unfold kvDelete
          dsimp only
          rw [hp]
  | get key => rfl
  | snapshot => exact kvSnapshotInternal_indexes store indexes

theorem runCalls_indexes (calls : List KVCall) :
    runCalls { store with indexes := indexes } calls =
      { runCalls store calls with indexes := indexes } := by
  induction calls generalizing store with
  | nil => rfl
  | cons c calls ih => rw [runCalls_cons, runCalls_cons, exec_indexes, ih]

end Indexes

/-- `db'` comes from `db` by `calls`, and by changes of the indexes. -/
structure Ran (db : Db n) (calls : List KVCall) (db' : Db n) : Prop where
  calls_eq : db'.calls = db.calls ++ calls
  store_eq : db'.store = { runCalls db.store calls with indexes := db'.store.indexes }

theorem Ran.refl (db : Db n) : Ran db [] db where
  calls_eq := (List.append_nil _).symm
  store_eq := rfl

theorem Ran.trans {db db' db'' : Db n} {calls calls' : List KVCall} (h₁ : Ran db calls db')
    (h₂ : Ran db' calls' db'') : Ran db (calls ++ calls') db'' where
  calls_eq := by rw [h₂.calls_eq, h₁.calls_eq, List.append_assoc]
  store_eq := by
    rw [runCalls_append]
    have h := h₂.store_eq
    rw [h₁.store_eq, runCalls_indexes] at h
    exact h

/-- Output, indexes and the transaction manager do not matter. -/
theorem Ran.aside {db db' db'' : Db n} {calls : List KVCall} (h : Ran db calls db')
    (hcalls : db''.calls = db'.calls)
    (hstore : db''.store = { db'.store with indexes := db''.store.indexes }) :
    Ran db calls db'' where
  calls_eq := hcalls.trans h.calls_eq
  store_eq := by
    rw [hstore, h.store_eq]

theorem ran_call (db : Db n) (c : KVCall) : Ran db [c] (db.call c) where
  calls_eq := rfl
  store_eq := rfl

theorem ran_undo (recs : List TxnOperation) (c : TxnOperation → Option KVCall) (db : Db n) :
    ∃ calls, Ran db calls (recs.foldl (fun db op => db.undo (c op)) db) := by
  induction recs generalizing db with
  | nil => exact ⟨[], Ran.refl db⟩
  | cons op recs ih =>
      rw [List.foldl_cons]
      obtain ⟨calls, hran⟩ := ih (db.undo (c op))
      cases hc : c op with
      | none =>
          rw [hc] at hran
          exact ⟨calls, hran⟩
      | some call =>
          rw [hc] at hran
          exact ⟨[call] ++ calls, (ran_call db call).trans hran⟩

theorem ran_undoDownTo (target : Nat) (ops : List TxnOperation) (count : Nat) (db : Db n) :
    ∃ calls, Ran db calls (undoDownTo target ops count db).2.2 := by
  induction ops generalizing count db with
  | nil => exact ⟨[], Ran.refl db⟩
  | cons op ops ih =>
      unfold undoDownTo
      by_cases hgt : count > target
      · rw [if_pos hgt]
        obtain ⟨calls, hran⟩ := ran_undo [op] undoCallTo db
        obtain ⟨calls', hran'⟩ := ih (count - 1) (db.undo (undoCallTo op))
        exact ⟨calls ++ calls', hran.trans hran'⟩
      · rw [if_neg hgt]
        exact ⟨[], Ran.refl db⟩

omit [NeZero n] in
@[simp]
theorem calls_pushOperation (db : Db n) (op : TxnOperation) :
    (db.pushOperation op).calls = db.calls := by
  unfold Db.pushOperation
  split <;> rfl

theorem ran_apply (db : Db n) (w : Write) : Ran db [w.call] (w.apply db) := by
  unfold Write.apply
  cases w.record with
  | none => exact ran_call db w.call
  | some op =>
      refine (ran_call db w.call).aside (calls_pushOperation _ op) ?_
      rw [store_pushOperation]

theorem chain_ran {P : Db n → Write → Prop} {db db' : Db n} (hc : Chain P db db') :
    ∃ calls, Ran db calls db' := by
  induction hc with
  | done db => exact ⟨[], Ran.refl db⟩
  | @aside db db' out indexes _ ih =>
      obtain ⟨calls, hran⟩ := ih
      have haside : Ran db []
          { db with out := out, store := { db.store with indexes := indexes } } :=
        ⟨(List.append_nil _).symm, rfl⟩
      exact ⟨[] ++ calls, haside.trans hran⟩
  | @write db db' w _ _ ih =>
      obtain ⟨calls, hran⟩ := ih
      exact ⟨[w.call] ++ calls, (ran_apply db w).trans hran⟩

/-- A statement changes the store by calls, and changes indexes. -/
theorem executeQuery_ran {db db' : Db n} {ctx ctx' : SessionContext} {stmt : ASTNode}
    (hexec : executeQuery db ctx stmt = some (db', ctx')) : ∃ calls, Ran db calls db' := by
  cases hstmt : stmt.isTransactionCommand with
  | false => exact chain_ran (executeQuery_chain hstmt hexec)
  | true =>
      cases stmt with
      | begin =>
          cases hexec
          refine ⟨[], ?_⟩
          unfold executeBegin
          cases txnBegin db.txnManager ctx.currentUser ctx.currentDb with
          | none => exact (Ran.refl db).aside rfl rfl
          | some manager => exact (Ran.refl db).aside rfl rfl
      | commit =>
          cases hexec
          unfold executeCommit
          cases txnCommit db.txnManager with
          | none => exact ⟨[], (Ran.refl db).aside rfl rfl⟩
          | some manager => exact ⟨[.snapshot], ⟨rfl, rfl⟩⟩
      | rollback =>
          cases hexec
          unfold executeRollback txnRollback
          cases db.txnManager.activeTxn with
          | none => exact ⟨[], (Ran.refl db).aside rfl rfl⟩
          | some txn =>
              obtain ⟨calls, hran⟩ := ran_undo txn.operations (undoCall txn.database) db
              exact ⟨calls, hran.aside rfl rfl⟩
      | rollbackTo name =>
          cases hexec
          unfold executeRollbackTo txnRollbackToSavepoint
          cases db.txnManager.activeTxn with
          | none => exact ⟨[], (Ran.refl db).aside rfl rfl⟩
          | some txn =>
              dsimp only
              cases txn.savepoints.find? fun sp => sp.name = name with
              | none => exact ⟨[], (Ran.refl db).aside rfl rfl⟩
              | some sp =>
                  obtain ⟨calls, hran⟩ :=
                    ran_undoDownTo sp.operationCount txn.operations txn.operationCount db
                  exact ⟨calls, hran.aside rfl rfl⟩
      | savepoint name =>
          cases hexec
          refine ⟨[], ?_⟩
          unfold executeSavepoint
          cases hsp : txnSavepoint db name with
          | none => exact (Ran.refl db).aside rfl rfl
          | some db' =>
              obtain ⟨txn, _, _, rfl⟩ := txnSavepoint_eq_some hsp
              exact (Ran.refl db).aside rfl rfl
      | releaseSavepoint name =>
          cases hexec
          refine ⟨[], ?_⟩
          unfold executeReleaseSavepoint txnReleaseSavepoint
          cases db.txnManager.activeTxn with
          | none => exact (Ran.refl db).aside rfl rfl
          | some txn =>
              dsimp only
              by_cases hthere : (txn.savepoints.any fun sp => sp.name = name) = true
              · rw [if_pos hthere]
                exact (Ran.refl db).aside rfl rfl
              · rw [if_neg hthere]
                exact (Ran.refl db).aside rfl rfl
      | _ => cases hstmt

/-! ## Histories -/

/-- The statements of all sessions, in the order the server executes them.  The store beside the
state is the one outside transactions: it stands still from BEGIN to the end of the
transaction. -/
def runHistory : Db n × KVStore n → List (SessionContext × ASTNode) → Option (Db n × KVStore n)
  | state, [] => some state
  | (db, settled), (ctx, stmt) :: history =>
      (executeQuery db ctx stmt).bind fun r =>
        runHistory
          (r.1, match r.1.txnManager.currentTxn with
            | none => r.1.store
            | some _ => settled) history

/-- A server that has just opened its store. -/
def serverOn (store : KVStore n) : Db n where
  store := store
  txnManager := txnManagerInit
  out := []
  calls := []

theorem runHistory_ran {db db' : Db n} {settled settled' : KVStore n}
    {history : List (SessionContext × ASTNode)}
    (hrun : runHistory (db, settled) history = some (db', settled')) :
    ∃ calls, Ran db calls db' := by
  induction history generalizing db settled with
  | nil =>
      cases hrun
      exact ⟨[], Ran.refl _⟩
  | cons item history ih =>
      obtain ⟨r, hexec, hrest⟩ := Option.bind_eq_some_iff.mp hrun
      obtain ⟨calls, hran⟩ := executeQuery_ran hexec
      obtain ⟨calls', hran'⟩ := ih hrest
      exact ⟨calls ++ calls', hran.trans hran'⟩

/-- Outside transactions the settled store is the store. -/
theorem runHistory_settled {db db' : Db n} {settled settled' : KVStore n}
    {history : List (SessionContext × ASTNode)}
    (hrun : runHistory (db, settled) history = some (db', settled'))
    (hsettled : db.txnManager.currentTxn = none → settled = db.store)
    (hidle : db'.txnManager.currentTxn = none) : settled' = db'.store := by
  induction history generalizing db settled with
  | nil =>
      cases hrun
      exact hsettled hidle
  | cons item history ih =>
      obtain ⟨r, _, hrest⟩ := Option.bind_eq_some_iff.mp hrun
      refine ih hrest ?_
      intro hnone
      rw [hnone]

theorem runEvents_calls (store : KVStore n) (calls : List KVCall) :
    runEvents store (calls.map .call) = some (runCalls store calls) := by
  induction calls generalizing store with
  | nil => rfl
  | cons c calls ih =>
      rw [List.map_cons, runEvents, runCalls_cons, ← ih]
      rfl

theorem durable_indexes {store : KVStore n} {live : List (CStr × Value)} {recs : List LogRecord}
    (hd : Durable store live recs) (indexes : List Index) :
    Durable { store with indexes := indexes } live recs := by
  exact { hd with }

/-- Whatever the history, a crash brings back the store as it stands: exactly the settled store
if no transaction is open or if the open one has left every key as it found it. -/
theorem crash_atomic_iff (hn : n < 2 ^ 31) (threshold : Int) (events : List Event)
    (store : KVStore n) (history : List (SessionContext × ASTNode)) (db : Db n)
    (settled : KVStore n)
    (hboot : runEvents (freshStore hn threshold) events = some store)
    (hevents : EventsFit (freshStore hn threshold : KVStore n) events)
    (hrun : runHistory (serverOn store, store) history = some (db, settled))
    (hcalls : EventsFit store (db.calls.map .call)) :
    ∃ r, kvRecover (emptied db.store) = some r ∧
      ((∀ key, kvGet r key = kvGet settled key) ↔
        db.txnManager.currentTxn = none ∨ ∀ key, db.get key = kvGet settled key) := by
  obtain ⟨store', live, recs, hboot', hd⟩ := (durable_fresh hn threshold).run hevents
  rw [hboot, Option.some_inj] at hboot'
  subst hboot'
  obtain ⟨calls, hran⟩ := runHistory_ran hrun
  have hdb : db.calls = calls := hran.calls_eq
  rw [hdb] at hcalls
  obtain ⟨store', live', recs', hran', hd'⟩ := hd.run hcalls
  rw [runEvents_calls, Option.some_inj] at hran'
  subst hran'
  have hdurable : Durable db.store live' recs' := by
    rw [hran.store_eq]
    exact durable_indexes hd' db.store.indexes
  obtain ⟨r, hrec, hget⟩ := hdurable.kvGet_recovered
  refine ⟨r, hrec, ?_⟩
  constructor
  · intro hsettled
    exact Or.inr fun key => (hget key).symm.trans (hsettled key)
  · rintro (hidle | hsame) key
    · rw [runHistory_settled hrun (fun _ => rfl) hidle]
      exact hget key
    · exact (hget key).trans (hsame key)

theorem crash_atomic_iff_committed :
    ∃ (db : Db 1024) (settled r : KVStore 1024), runHistory (serverOn defaultStore, defaultStore)
        [(publicSession, .createTable (CStr.lit "t") []), (publicSession, .begin),
          (publicSession, .insert (CStr.lit "t") [[CStr.lit "1"]]), (publicSession, .commit),
          (publicSession, .begin)] = some (db, settled) ∧
      kvRecover (emptied db.store) = some r ∧
      ((∀ key, kvGet r key = kvGet settled key) ↔
        db.txnManager.currentTxn = none ∨ ∀ key, db.get key = kvGet settled key) := by
  obtain ⟨⟨db, settled⟩, hrun, hcalls⟩ := (Option.any_eq_true _ _).mp
    (show (runHistory (serverOn defaultStore, defaultStore)
        [(publicSession, .createTable (CStr.lit "t") []), (publicSession, .begin),
          (publicSession, .insert (CStr.lit "t") [[CStr.lit "1"]]), (publicSession, .commit),
          (publicSession, .begin)]).any
      (fun r => decide (EventsFit defaultStore (r.1.calls.map .call))) = true by decide)
  obtain ⟨r, hrec, hiff⟩ := crash_atomic_iff (by decide) (2 * 1024 * 1024) [] defaultStore _ db
    settled rfl trivial hrun (of_decide_eq_true hcalls)
  exact ⟨db, settled, r, hrun, hrec, hiff⟩

/-- A crash inside a transaction brings its row back. -/
theorem crash_keeps_open_insert :
    (runHistory (serverOn defaultStore, defaultStore)
        [(publicSession, .createTable (CStr.lit "t") []), (publicSession, .begin),
          (publicSession, .insert (CStr.lit "t") [[CStr.lit "1"]])]).map
      (fun state =>
        (state.1.txnManager.currentTxn.isSome,
          (kvGet state.2 (CStr.lit "DB:public:TBL:t:1")).isSome,
          (kvRecover (emptied state.1.store)).map fun r =>
            (kvGet r (CStr.lit "DB:public:TBL:t:1")).isSome)) =
      some (true, false, some true) := by
  decide

end Transaction
end InventixDB
