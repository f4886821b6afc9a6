import InventixDB.Executor.Entries
import InventixDB.Executor.Indexes

/-!
# NewRows — which statements add a row to a table

Row keys of a table come from INSERTs into it, and from calls others have asked for: the undo log of
a transaction, or another module.  Every other statement keeps the row keys it finds, or some of
them.
-/

namespace InventixDB
namespace Executor

open Storage
open Transaction
open Lib.OpenAddressing

variable {n : Nat} [NeZero n]

/-! ## New row keys -/

/-- Row keys of a table that are stored afterwards were stored before, or are among `keys`. -/
def NewRowsAmong (keys : List CStr) (database tableName : CStr)
    (before after : Table CStr Value n) :
    Prop :=
  ∀ i e, after i = some e → CStr.startsWith (rowPrefix database tableName) e.1 = true →
    (∃ j v, before j = some (e.1, v)) ∨ e.1 ∈ keys

section NewRows

variable {keys : List CStr} {database tableName : CStr} {before middle after : Table CStr Value n}

omit [NeZero n] in
theorem NewRowsAmong.refl (keys : List CStr) (database tableName : CStr)
    (t : Table CStr Value n) : NewRowsAmong keys database tableName t t :=
  fun i e hentry _ => .inl ⟨i, e.2, hentry⟩

omit [NeZero n] in
theorem NewRowsAmong.trans (h₁ : NewRowsAmong keys database tableName before middle)
    (h₂ : NewRowsAmong keys database tableName middle after) :
    NewRowsAmong keys database tableName before after := by
  intro i e hentry hstarts
  rcases h₂ i e hentry hstarts with ⟨j, v, hj⟩ | hmem
  · exact h₁ j (e.1, v) hj hstarts
  · exact .inr hmem

theorem newRowsAmong_erase (keys : List CStr) (database tableName : CStr)
    (t : Table CStr Value n) (key : CStr) :
    NewRowsAmong keys database tableName t (erase CStr.slot t key) :=
  fun i e hentry _ => .inl ⟨i, e.2, erase_slot hentry⟩

/-- A put under another key, under a stored one or under one of `keys` adds no other row key. -/
theorem newRowsAmong_insert {t : Table CStr Value n} {key : CStr} (val : Value)
    (hkey : CStr.startsWith (rowPrefix database tableName) key = true →
      (∃ j v, t j = some (key, v)) ∨ key ∈ keys) :
    NewRowsAmong keys database tableName t (insert CStr.slot t key val) := by
  intro i e hentry hstarts
  rcases insert_slot hentry with hold | rfl
  · exact .inl ⟨i, e.2, hold⟩
  · exact hkey hstarts

/-- The same of a sequence of calls, none of which puts another row key. -/
theorem newRowsAmong_calls (calls : List KVCall)
    (hcalls : ∀ key val, .put key val ∈ calls →
      CStr.startsWith (rowPrefix database tableName) key = true → key ∈ keys)
    (t : Table CStr Value n) :
    NewRowsAmong keys database tableName t (applyOps CStr.slot t (opsOf calls)) := by
  induction calls generalizing t with
  | nil => exact NewRowsAmong.refl keys database tableName t
  | cons c calls ih =>
      have hsplit : opsOf (c :: calls) = opsOf [c] ++ opsOf calls := opsOf_append [c] calls
      rw [hsplit, applyOps_append]
      refine NewRowsAmong.trans ?_
        (ih (fun key val hmem => hcalls key val (List.mem_cons_of_mem c hmem)) _)
      cases c with
      | put key val =>
          exact newRowsAmong_insert val fun hstarts =>
            .inr (hcalls key val List.mem_cons_self hstarts)
      | delete key => exact newRowsAmong_erase keys database tableName t key
      | get key => exact NewRowsAmong.refl keys database tableName t
      | snapshot => exact NewRowsAmong.refl keys database tableName t

end NewRows

/-! ## Keys of other kinds -/

section Kinds

variable {database tableName key : CStr}

theorem not_startsWith_counterKey {database' tableName' : CStr}
    (hd : Sql.isWord database = true) (hd' : Sql.isWord database' = true) :
    CStr.startsWith (rowPrefix database tableName) (counterKey database' tableName') ≠ true := by
  intro hstarts
  obtain ⟨pk, hkey⟩ := startsWith_rowPrefix_iff.mp hstarts
  exact rowKey_ne_counterKey hd hd' hkey.symm

theorem not_startsWith_schemaKey {database' tableName' : CStr}
    (hd : Sql.isWord database = true) (hd' : Sql.isWord database' = true) :
    CStr.startsWith (rowPrefix database tableName) (schemaKey database' tableName') ≠ true := by
  intro hstarts
  obtain ⟨pk, hkey⟩ := startsWith_rowPrefix_iff.mp hstarts
  exact rowKey_ne_schemaKey hd hd' hkey.symm

/-- A key of a database that goes on with another letter than `T` is no row key. -/
theorem not_startsWith_of_letter {database' : CStr} {c : UInt8} {rest : List UInt8}
    (hd : Sql.isWord database = true) (hd' : Sql.isWord database' = true)
    (hkey : key.val = (CStr.lit "DB:").val ++ (database'.val ++ 58 :: c :: rest)) (hc : c ≠ 84) :
    CStr.startsWith (rowPrefix database tableName) key ≠ true := by
  intro hstarts
  obtain ⟨pk, rfl⟩ := startsWith_rowPrefix_iff.mp hstarts
  rw [val_rowKey] at hkey
  obtain ⟨_, hrest⟩ := append_cons_inj_of_notMem (colon_notMem_of_isWord hd)
    (colon_notMem_of_isWord hd') (List.append_cancel_left hkey)
  exact hc (List.cons.inj hrest).1.symm

/-- Nor is a key of the system. -/
theorem not_startsWith_of_system {rest : List UInt8}
    (hkey : key.val = (CStr.lit "SYS:").val ++ rest) :
    CStr.startsWith (rowPrefix database tableName) key ≠ true := by
  intro hstarts
  obtain ⟨pk, rfl⟩ := startsWith_rowPrefix_iff.mp hstarts
  rw [val_rowKey] at hkey
  have hdb : (CStr.lit "DB:").val = [68, 66, 58] := by decide
  have hsys : (CStr.lit "SYS:").val = [83, 89, 83, 58] := by decide
  rw [hdb, hsys] at hkey
  exact absurd (List.cons.inj hkey).1 (by decide)

end Kinds

/-! ## Statements that add no row of a table -/

section Statements

variable {db db' : Db n} {ctx : SessionContext} {database tableName name : CStr}

theorem newRows_createTable {columns : List ColumnDef} (hd : Sql.isWord database = true)
    (hd' : Sql.isWord ctx.currentDb = true)
    (hexec : executeCreateTable db ctx name columns = some db') :
    NewRowsAmong [] database tableName db.store.entries db'.store.entries := by
  rcases entries_createTable hexec with heq | ⟨schema, _, _, heq⟩
  · rw [heq]
    exact NewRowsAmong.refl _ _ _ _
  · rw [heq]
    exact (newRowsAmong_insert _ fun hstarts =>
      absurd hstarts (not_startsWith_schemaKey hd hd')).trans
      (newRowsAmong_insert _ fun hstarts => absurd hstarts (not_startsWith_counterKey hd hd'))

/-- An INSERT into another table adds no row key of this one. -/
theorem newRows_insertRows {schema : Option CStr} {state state' : Db n × Nat}
    {rows : List (List CStr)} (hd : Sql.isWord database = true)
    (hd' : Sql.isWord ctx.currentDb = true) (ht : Sql.isWord tableName = true)
    (ht' : Sql.isWord name = true) (hother : ¬ (ctx.currentDb = database ∧ name = tableName))
    (hexec : insertRows ctx name schema state rows = some state') :
    NewRowsAmong [] database tableName state.1.store.entries state'.1.store.entries := by
  induction rows generalizing state with
  | nil =>
      cases hexec
      exact NewRowsAmong.refl _ _ _ _
  | cons vals rows ih =>
      obtain ⟨state₁, hone, hrows⟩ := Option.bind_eq_some_iff.mp hexec
      refine NewRowsAmong.trans ?_ (ih hrows)
      have hmoved : ∀ {id finalId : CStr} {moved : Db n},
          resolveId state.1 ctx name id = some (finalId, moved) →
          NewRowsAmong [] database tableName state.1.store.entries moved.store.entries := by
        intro id finalId moved hid
        rcases entries_resolveId hid with heq | ⟨val, heq⟩
        · rw [heq]
          exact NewRowsAmong.refl _ _ _ _
        · rw [heq]
          exact newRowsAmong_insert val fun hstarts =>
            absurd hstarts (not_startsWith_counterKey hd hd')
      cases insertRow_cases hone with
      | missing _ hstore _ =>
          rw [hstore]
          exact NewRowsAmong.refl _ _ _ _
      | duplicate id finalId moved old _ hid _ hstore _ =>
          rw [hstore]
          exact hmoved hid
      | stored id finalId moved data _ hid _ _ hentries _ =>
          rw [hentries]
          refine (hmoved hid).trans (newRowsAmong_insert _ fun hstarts => ?_)
          obtain ⟨pk, hkey⟩ := startsWith_rowPrefix_iff.mp hstarts
          obtain ⟨hdatabase, htable, _⟩ := rowKey_inj hd' hd ht' ht hkey
          exact absurd ⟨hdatabase, htable⟩ hother

theorem newRows_insert {rows : List (List CStr)} (hd : Sql.isWord database = true)
    (hd' : Sql.isWord ctx.currentDb = true) (ht : Sql.isWord tableName = true)
    (ht' : Sql.isWord name = true) (hother : ¬ (ctx.currentDb = database ∧ name = tableName))
    (hexec : executeInsert db ctx name rows = some db') :
    NewRowsAmong [] database tableName db.store.entries db'.store.entries := by
  unfold executeInsert at hexec
  split at hexec
  · cases hexec
    exact NewRowsAmong.refl _ _ _ _
  · obtain ⟨metaKey, _, hexec⟩ := Option.bind_eq_some_iff.mp hexec
    obtain ⟨schema, _, hexec⟩ := Option.bind_eq_some_iff.mp hexec
    obtain ⟨state, hrows, hexec⟩ := Option.bind_eq_some_iff.mp hexec
    cases hexec
    exact newRows_insertRows hd hd' ht ht' hother hrows

/-- A chain of calls that put stored keys only, or delete. -/
theorem newRows_chain {keys : List CStr} (hc : Chain (fun db w => ∀ key val, w.call = .put key val →
      CStr.startsWith (rowPrefix database tableName) key = true →
        (∃ j v, db.store.entries j = some (key, v)) ∨ key ∈ keys) db db') :
    NewRowsAmong keys database tableName db.store.entries db'.store.entries := by
  induction hc with
  | done db => exact NewRowsAmong.refl _ _ _ _
  | aside out indexes _ ih => exact ih
  | @write db db' w hw _ ih =>
      refine NewRowsAmong.trans ?_ ih
      rw [store_apply, entries_exec]
      cases hcall : w.call with
      | put key val => exact newRowsAmong_insert val (hw key val hcall)
      | delete key => exact newRowsAmong_erase _ _ _ _ key
      | get key => exact NewRowsAmong.refl _ _ _ _
      | snapshot => exact NewRowsAmong.refl _ _ _ _

theorem newRows_update {sets : List (CStr × CStr)} {whereClause : Option ASTExpr}
    (hexec : executeUpdate db ctx name sets whereClause = some db') :
    NewRowsAmong [] database tableName db.store.entries db'.store.entries := by
  refine newRows_chain (chain_update hexec ?_)
  intro id key old row _ _ hget _ key' val hcall _
  cases hcall
  obtain ⟨j, _, hentry⟩ := lookup_eq_some_iff_hit.mp hget
  exact .inl ⟨j, old, hentry⟩

theorem newRows_delete {whereClause : Option ASTExpr}
    (hexec : executeDelete db ctx name whereClause = some db') :
    NewRowsAmong [] database tableName db.store.entries db'.store.entries := by
  refine newRows_chain (chain_delete hexec ?_ ?_)
  · intro id key old _ _ _ key' val hcall
    cases hcall
  · intro key _ key' val hcall
    cases hcall

theorem newRows_dropTable (hexec : executeDropTable db ctx name = some db') :
    NewRowsAmong [] database tableName db.store.entries db'.store.entries := by
  refine newRows_chain (chain_dropTable hexec ?_ ?_ ?_)
  · intro key v schema _ _ _ key' val hcall
    cases hcall
  · intro key v _ _ _ key' val hcall
    cases hcall
  · intro db₁ key v seqKey _ _ _ _ key' val hcall
    cases hcall

theorem newRows_callDelete (db : Db n) (key : CStr) :
    NewRowsAmong [] database tableName db.store.entries
      (db.call (.delete key)).store.entries := by
  change NewRowsAmong _ _ _ _ (kvDelete db.store key).entries
  rw [entries_kvDelete]
  exact newRowsAmong_erase _ _ _ _ key

theorem newRows_dropDb {dbName : CStr} (hexec : executeDropDb db ctx dbName = some db') :
    NewRowsAmong [] database tableName db.store.entries db'.store.entries := by
  unfold executeDropDb at hexec
  split at hexec
  · cases hexec
    exact NewRowsAmong.refl _ _ _ _
  split at hexec
  · cases hexec
    exact NewRowsAmong.refl _ _ _ _
  obtain ⟨sysKey, _, hexec⟩ := Option.bind_eq_some_iff.mp hexec
  split at hexec
  · obtain ⟨pre, _, hexec⟩ := Option.bind_eq_some_iff.mp hexec
    cases hexec
    have hkeys : ∀ (keys : List CStr) (db : Db n), NewRowsAmong [] database tableName
        db.store.entries (keys.foldl (fun db key => db.call (.delete key)) db).store.entries := by
      intro keys
      induction keys with
      | nil => intro db; exact NewRowsAmong.refl _ _ _ _
      | cons key keys ih =>
          intro db
          exact (newRows_callDelete db key).trans (ih (db.call (.delete key)))
    exact (hkeys _ db).trans (newRows_callDelete _ sysKey)
  · cases hexec
    exact NewRowsAmong.refl _ _ _ _

/-- A put under a key that is no row key. -/
theorem newRows_put {key : CStr} (val : Value)
    (hkey : CStr.startsWith (rowPrefix database tableName) key ≠ true) :
    NewRowsAmong [] database tableName db.store.entries (db.call (.put key val)).store.entries := by
  change NewRowsAmong _ _ _ _ (kvPut db.store key val).entries
  rw [entries_kvPut]
  exact newRowsAmong_insert val fun hstarts => absurd hstarts hkey

theorem newRows_docInsert {collection jsonBody : CStr} (hd : Sql.isWord database = true)
    (hd' : Sql.isWord ctx.currentDb = true)
    (hexec : executeDocInsert db ctx collection jsonBody = some db') :
    NewRowsAmong [] database tableName db.store.entries db'.store.entries := by
  have hseq : (CStr.lit ":DOC_SEQ:").val = 58 :: 68 :: [79, 67, 95, 83, 69, 81, 58] := by decide
  have hdoc : (CStr.lit ":DOC:").val = 58 :: 68 :: [79, 67, 58] := by decide
  obtain ⟨seqKey, hseqKey, hexec⟩ := Option.bind_eq_some_iff.mp hexec
  obtain ⟨last, _, hexec⟩ := Option.bind_eq_some_iff.mp hexec
  obtain ⟨nextId, _, hexec⟩ := Option.bind_eq_some_iff.mp hexec
  obtain ⟨key, hkey, hexec⟩ := Option.bind_eq_some_iff.mp hexec
  cases hexec
  obtain ⟨rfl, _⟩ := CStr.sprintf_eq_some hseqKey
  obtain ⟨rfl, _⟩ := CStr.sprintf_eq_some hkey
  have hseqVal : (CStr.lit "DB:" ++ ctx.currentDb ++ CStr.lit ":DOC_SEQ:" ++ collection).val =
      (CStr.lit "DB:").val ++ (ctx.currentDb.val ++ 58 :: 68 ::
        ([79, 67, 95, 83, 69, 81, 58] ++ collection.val)) := by
    simp [CStr.val_append, hseq]
  have hdocVal : (CStr.lit "DB:" ++ ctx.currentDb ++ CStr.lit ":DOC:" ++ collection ++
      CStr.lit ":" ++ CStr.ofInt nextId).val =
      (CStr.lit "DB:").val ++ (ctx.currentDb.val ++ 58 :: 68 ::
        ([79, 67, 58] ++ (collection ++ CStr.lit ":" ++ CStr.ofInt nextId).val)) := by
    simp [CStr.val_append, hdoc]
  exact (newRows_put _ (not_startsWith_of_letter hd hd' hseqVal (by decide))).trans
    (newRows_put _ (not_startsWith_of_letter hd hd' hdocVal (by decide)))

theorem newRows_docRemove {collection docId : CStr}
    (hexec : executeDocRemove db ctx collection docId = some db') :
    NewRowsAmong [] database tableName db.store.entries db'.store.entries := by
  refine newRows_chain (chain_docRemove hexec ?_)
  intro key v _ _ key' val hcall
  cases hcall

theorem newRows_createUser {username password : CStr}
    (hexec : executeCreateUser db username password = some db') :
    NewRowsAmong [] database tableName db.store.entries db'.store.entries := by
  have hsys : (CStr.lit "SYS:USER:").val = (CStr.lit "SYS:").val ++ (CStr.lit "USER:").val := by
    decide
  obtain ⟨key, hkey, hexec⟩ := Option.bind_eq_some_iff.mp hexec
  obtain ⟨rfl, _⟩ := CStr.sprintf_eq_some hkey
  split at hexec
  · cases hexec
    exact NewRowsAmong.refl _ _ _ _
  · cases hexec
    have hval : (CStr.lit "SYS:USER:" ++ username).val =
        (CStr.lit "SYS:").val ++ ((CStr.lit "USER:").val ++ username.val) := by
      rw [CStr.val_append, hsys, List.append_assoc]
    exact newRows_put _ (not_startsWith_of_system hval)

theorem newRows_createDb {dbName : CStr} (hexec : executeCreateDb db dbName = some db') :
    NewRowsAmong [] database tableName db.store.entries db'.store.entries := by
  have hsys : (CStr.lit "SYS:DB:").val = (CStr.lit "SYS:").val ++ (CStr.lit "DB:").val := by
    decide
  obtain ⟨key, hkey, hexec⟩ := Option.bind_eq_some_iff.mp hexec
  obtain ⟨rfl, _⟩ := CStr.sprintf_eq_some hkey
  split at hexec
  · cases hexec
    exact NewRowsAmong.refl _ _ _ _
  · cases hexec
    have hval : (CStr.lit "SYS:DB:" ++ dbName).val =
        (CStr.lit "SYS:").val ++ ((CStr.lit "DB:").val ++ dbName.val) := by
      rw [CStr.val_append, hsys, List.append_assoc]
    exact newRows_put _ (not_startsWith_of_system hval)

end Statements

/-! ## Every statement -/

/-- The calls a statement makes that others have asked for: the undo log, or another module. -/
def askedCalls (db : Db n) : ASTNode → List KVCall
  | .rollback =>
      match db.txnManager.activeTxn with
      | some txn => txn.operations.filterMap (undoCall txn.database)
      | none => []
  | .rollbackTo name =>
      match db.txnManager.activeTxn with
      | some txn =>
          match txn.savepoints.find? fun sp => sp.name = name with
          | some sp =>
              (txn.operations.take (txn.operationCount - sp.operationCount)).filterMap undoCallTo
          | none => []
      | none => []
  | .foreign calls _ => calls
  | _ => []

/-- The names of the tables a statement is about are words. -/
def namesWords : ASTNode → Bool
  | .createTable tableName _ => Sql.isWord tableName
  | .insert tableName _ => Sql.isWord tableName
  | .dropTable tableName => Sql.isWord tableName
  | _ => true

theorem entries_undoDownTo (target : Nat) (ops : List TxnOperation) (count : Nat) (db : Db n) :
    (undoDownTo target ops count db).2.2.store.entries =
      applyOps CStr.slot db.store.entries
        (opsOf ((ops.take (count - target)).filterMap undoCallTo)) := by
  fun_induction undoDownTo target ops count db with
  | case1 count db => simp [opsOf]
  | case2 op ops count db hgt ih =>
      have hcount : count - target = (count - 1 - target) + 1 := by omega
      rw [ih, entries_undo, ← applyOps_append, ← opsOf_append, hcount, List.take_succ_cons]
      cases hcall : undoCallTo op with
      | none => simp [hcall]
      | some c => simp [hcall]
  | case3 op ops count db hgt =>
      have hcount : count - target = 0 := by omega
      rw [hcount]
      simp [opsOf]

/-- A statement that is not an INSERT into the table adds no row key of it, except by the calls
others have asked for. -/
theorem newRows_executeQuery {db db' : Db n} {ctx ctx' : SessionContext} {stmt : ASTNode}
    {keys : List CStr} {database tableName : CStr} (hd : Sql.isWord database = true)
    (hd' : Sql.isWord ctx.currentDb = true) (ht : Sql.isWord tableName = true)
    (hnames : namesWords stmt = true)
    (hother : ∀ name rows, stmt = .insert name rows →
      ¬ (ctx.currentDb = database ∧ name = tableName))
    (hasked : ∀ key val, .put key val ∈ askedCalls db stmt →
      CStr.startsWith (rowPrefix database tableName) key = true → key ∈ keys)
    (hexec : executeQuery db ctx stmt = some (db', ctx')) :
    NewRowsAmong keys database tableName db.store.entries db'.store.entries := by
  have hnone : ∀ {after : Table CStr Value n},
      NewRowsAmong [] database tableName db.store.entries after →
        NewRowsAmong keys database tableName db.store.entries after := by
    intro after hnew i e hentry hstarts
    rcases hnew i e hentry hstarts with hold | hmem
    · exact .inl hold
    · cases hmem
  have hctx : ∀ {o : Option (Db n)}, o.map (·, ctx) = some (db', ctx') → o = some db' := by
    intro o ho
    obtain ⟨db₁, hdb, heq⟩ := Option.map_eq_some_iff.mp ho
    cases heq
    exact hdb
  cases stmt with
  | createTable name columns => exact hnone (newRows_createTable hd hd' (hctx hexec))
  | insert name rows =>
      exact hnone (newRows_insert hd hd' ht hnames (hother name rows rfl) (hctx hexec))
  | delete name whereClause => exact hnone (newRows_delete (hctx hexec))
  | update name sets whereClause => exact hnone (newRows_update (hctx hexec))
  | dropTable name => exact hnone (newRows_dropTable (hctx hexec))
  | docInsert collection jsonBody => exact hnone (newRows_docInsert hd hd' (hctx hexec))
  | docRemove collection docId => exact hnone (newRows_docRemove (hctx hexec))
  | checkpoint =>
      cases hexec
      exact hnone (by
        change NewRowsAmong _ _ _ _ (kvSnapshotInternal db.store).entries
        rw [entries_kvSnapshotInternal]
        exact NewRowsAmong.refl _ _ _ _)
  | createIndex name colName =>
      obtain ⟨_, _, hdone⟩ := Option.bind_eq_some_iff.mp (hctx hexec)
      cases hdone
      exact NewRowsAmong.refl _ _ _ _
  | createUser username password => exact hnone (newRows_createUser (hctx hexec))
  | createDb dbName => exact hnone (newRows_createDb (hctx hexec))
  | useDb dbName =>
      refine hnone (newRows_chain (chain_useDb hexec))
  | dropDb dbName => exact hnone (newRows_dropDb (hctx hexec))
  | begin =>
      cases hexec
      unfold executeBegin
      split <;> exact NewRowsAmong.refl _ _ _ _
  | commit =>
      cases hexec
      unfold executeCommit
      split
      · change NewRowsAmong _ _ _ _ (kvSnapshotInternal db.store).entries
        rw [entries_kvSnapshotInternal]
        exact NewRowsAmong.refl _ _ _ _
      · exact NewRowsAmong.refl _ _ _ _
  | rollback =>
      cases hexec
      unfold executeRollback txnRollback
      cases htxn : db.txnManager.activeTxn with
      | none => exact NewRowsAmong.refl _ _ _ _
      | some txn =>
          change NewRowsAmong _ _ _ _
            (txn.operations.foldl
              (fun db op => db.undo (undoCall txn.database op)) db).store.entries
          rw [entries_foldl_undo]
          simp only [askedCalls, htxn] at hasked
          exact newRowsAmong_calls _ hasked _
  | rollbackTo name =>
      cases hexec
      unfold executeRollbackTo txnRollbackToSavepoint
      cases htxn : db.txnManager.activeTxn with
      | none => exact NewRowsAmong.refl _ _ _ _
      | some txn =>
          dsimp only
          cases hsp : txn.savepoints.find? fun sp => sp.name = name with
          | none => exact NewRowsAmong.refl _ _ _ _
          | some sp =>
              change NewRowsAmong _ _ _ _
                (undoDownTo sp.operationCount txn.operations
                  txn.operationCount db).2.2.store.entries
              rw [entries_undoDownTo]
              simp only [askedCalls, htxn, hsp] at hasked
              exact newRowsAmong_calls _ hasked _
  | savepoint name =>
      cases hexec
      unfold executeSavepoint txnSavepoint
      cases db.txnManager.activeTxn with
      | none => exact NewRowsAmong.refl _ _ _ _
      | some txn =>
          dsimp only
          split_ifs <;> exact NewRowsAmong.refl _ _ _ _
  | releaseSavepoint name =>
      cases hexec
      unfold executeReleaseSavepoint txnReleaseSavepoint
      cases db.txnManager.activeTxn with
      | none => exact NewRowsAmong.refl _ _ _ _
      | some txn =>
          dsimp only
          split_ifs <;> exact NewRowsAmong.refl _ _ _ _
  | «foreign» calls currentDb =>
      cases hexec
      have hfold : ∀ (calls : List KVCall) (db : Db n), (calls.foldl Db.call db).store.entries =
          applyOps CStr.slot db.store.entries (opsOf calls) := by
        intro calls db
        rw [← entries_runCalls]
        congr 1
        induction calls generalizing db with
        | nil => rfl
        | cons c calls ih => exact ih (db.call c)
      rw [hfold]
      exact newRowsAmong_calls calls hasked _

end Executor
end InventixDB
