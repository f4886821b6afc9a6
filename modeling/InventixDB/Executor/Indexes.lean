import InventixDB.Executor.Select
import InventixDB.Sql.Parser
import InventixDB.Transaction.Crash

/-!
# Indexes — what a secondary index holds

CREATE INDEX registers an index under `DB:<database>:TBL:<table>`, while INSERT offers its rows to
the indexes of the bare table name, and a SELECT asks for those too.  No table name that the
parser reads is the full name of an index, so an index stays as empty as it was made.
-/

namespace InventixDB
namespace Executor

open Storage
open Transaction

variable {n : Nat} [NeZero n]

/-! ## Statements that leave the indexes alone -/

section Frame

variable {db db' : Db n} {ctx ctx' : SessionContext} {tableName : CStr}

theorem indexes_exec (store : KVStore n) (c : KVCall) :
    (c.exec store).indexes = store.indexes := by
  have hexec := congrArg KVStore.indexes (exec_indexes store store.indexes c)
  exact hexec

@[simp]
theorem indexes_call (db : Db n) (c : KVCall) :
    (db.call c).store.indexes = db.store.indexes :=
  indexes_exec db.store c

omit [NeZero n] in
@[simp]
theorem indexes_fprintf (db : Db n) (text : CStr) :
    (db.fprintf text).store.indexes = db.store.indexes := rfl

omit [NeZero n] in
@[simp]
theorem indexes_pushOperation (db : Db n) (op : TxnOperation) :
    (db.pushOperation op).store.indexes = db.store.indexes :=
  congrArg KVStore.indexes (store_pushOperation db op)

@[simp]
theorem indexes_undo (db : Db n) (c : Option KVCall) :
    (db.undo c).store.indexes = db.store.indexes := by
  cases c with
  | none => rfl
  | some c => exact indexes_call db c

omit [NeZero n] in
theorem indexes_foldl {α : Type*} {f : Db n → α → Db n}
    (hf : ∀ db a, (f db a).store.indexes = db.store.indexes) (as : List α) (db : Db n) :
    (as.foldl f db).store.indexes = db.store.indexes := by
  induction as generalizing db with
  | nil => rfl
  | cons a as ih => exact (ih (f db a)).trans (hf db a)

theorem indexes_createTable {columns : List ColumnDef}
    (hexec : executeCreateTable db ctx tableName columns = some db') :
    db'.store.indexes = db.store.indexes := by
  obtain ⟨key, _, hexec⟩ := Option.bind_eq_some_iff.mp hexec
  split at hexec
  · cases hexec
    rfl
  · obtain ⟨schema, _, hexec⟩ := Option.bind_eq_some_iff.mp hexec
    obtain ⟨seqKey, _, hexec⟩ := Option.bind_eq_some_iff.mp hexec
    cases hexec
    simp [txnLogCreateTable]

theorem indexes_dropTable (hexec : executeDropTable db ctx tableName = some db') :
    db'.store.indexes = db.store.indexes := by
  obtain ⟨metaKey, _, hexec⟩ := Option.bind_eq_some_iff.mp hexec
  split at hexec
  · cases hexec
    rfl
  · obtain ⟨logged, hlogged, hexec⟩ := Option.bind_eq_some_iff.mp hexec
    obtain ⟨seqKey, _, hexec⟩ := Option.bind_eq_some_iff.mp hexec
    have hindexes : logged.store.indexes = db.store.indexes := by
      unfold txnLogDropTable at hlogged
      split at hlogged
      · cases hlogged
        rfl
      · obtain ⟨schema, _, rfl⟩ := Option.map_eq_some_iff.mp hlogged
        exact indexes_pushOperation db _
    cases hexec
    simpa using hindexes

theorem indexes_delete {whereClause : Option ASTExpr}
    (hexec : executeDelete db ctx tableName whereClause = some db') :
    db'.store.indexes = db.store.indexes := by
  obtain ⟨target, _, hexec⟩ := Option.bind_eq_some_iff.mp hexec
  cases target with
  | none =>
      cases hexec
      rfl
  | some id =>
      obtain ⟨key, _, hexec⟩ := Option.bind_eq_some_iff.mp hexec
      cases hexec
      cases db.get key with
      | none => simp
      | some old => simp [txnLogDelete]

theorem indexes_update {sets : List (CStr × CStr)} {whereClause : Option ASTExpr}
    (hexec : executeUpdate db ctx tableName sets whereClause = some db') :
    db'.store.indexes = db.store.indexes := by
  obtain ⟨metaKey, _, hexec⟩ := Option.bind_eq_some_iff.mp hexec
  cases hmeta : db.get metaKey with
  | none =>
      rw [hmeta] at hexec
      cases hexec
      rfl
  | some schemaVal =>
      rw [hmeta] at hexec
      obtain ⟨schema, _, hexec⟩ := Option.bind_eq_some_iff.mp hexec
      dsimp only at hexec
      split at hexec
      · cases hexec
        rfl
      split at hexec
      · cases hexec
        rfl
      obtain ⟨key, _, hexec⟩ := Option.bind_eq_some_iff.mp hexec
      split at hexec
      · cases hexec
        rfl
      obtain ⟨values, _, hexec⟩ := Option.bind_eq_some_iff.mp hexec
      cases values with
      | none =>
          cases hexec
          rfl
      | some values =>
          obtain ⟨newRow, _, hexec⟩ := Option.bind_eq_some_iff.mp hexec
          cases hexec
          simp [txnLogUpdate]

theorem indexes_docInsert {jsonBody : CStr}
    (hexec : executeDocInsert db ctx tableName jsonBody = some db') :
    db'.store.indexes = db.store.indexes := by
  obtain ⟨seqKey, _, hexec⟩ := Option.bind_eq_some_iff.mp hexec
  obtain ⟨last, _, hexec⟩ := Option.bind_eq_some_iff.mp hexec
  obtain ⟨nextId, _, hexec⟩ := Option.bind_eq_some_iff.mp hexec
  obtain ⟨key, _, hexec⟩ := Option.bind_eq_some_iff.mp hexec
  cases hexec
  simp

theorem indexes_docRemove {docId : CStr}
    (hexec : executeDocRemove db ctx tableName docId = some db') :
    db'.store.indexes = db.store.indexes := by
  obtain ⟨key, _, hexec⟩ := Option.bind_eq_some_iff.mp hexec
  split at hexec <;>
    · cases hexec
      simp

theorem indexes_createUser {username password : CStr}
    (hexec : executeCreateUser db username password = some db') :
    db'.store.indexes = db.store.indexes := by
  obtain ⟨key, _, hexec⟩ := Option.bind_eq_some_iff.mp hexec
  split at hexec <;>
    · cases hexec
      simp

theorem indexes_createDb {dbName : CStr} (hexec : executeCreateDb db dbName = some db') :
    db'.store.indexes = db.store.indexes := by
  obtain ⟨key, _, hexec⟩ := Option.bind_eq_some_iff.mp hexec
  split at hexec <;>
    · cases hexec
      simp

theorem indexes_useDb {dbName : CStr} (hexec : executeUseDb db ctx dbName = some (db', ctx')) :
    db'.store.indexes = db.store.indexes := by
  unfold executeUseDb at hexec
  split at hexec
  · obtain ⟨_, _, hexec⟩ := Option.bind_eq_some_iff.mp hexec
    cases hexec
    rfl
  · obtain ⟨key, _, hexec⟩ := Option.bind_eq_some_iff.mp hexec
    split at hexec
    · obtain ⟨_, _, hexec⟩ := Option.bind_eq_some_iff.mp hexec
      cases hexec
      rfl
    · cases hexec
      rfl

theorem indexes_dropDb {dbName : CStr} (hexec : executeDropDb db ctx dbName = some db') :
    db'.store.indexes = db.store.indexes := by
  unfold executeDropDb at hexec
  split at hexec
  · cases hexec
    rfl
  split at hexec
  · cases hexec
    rfl
  obtain ⟨sysKey, _, hexec⟩ := Option.bind_eq_some_iff.mp hexec
  split at hexec
  · obtain ⟨pre, _, hexec⟩ := Option.bind_eq_some_iff.mp hexec
    cases hexec
    have hkeys := fun keys : List CStr =>
      indexes_foldl (fun (db : Db n) key => indexes_call db (.delete key)) keys db
    simpa using hkeys _
  · cases hexec
    rfl

omit [NeZero n] in
theorem indexes_begin (db : Db n) (ctx : SessionContext) :
    (executeBegin db ctx).store.indexes = db.store.indexes := by
  unfold executeBegin
  split <;> rfl

theorem indexes_commit (db : Db n) : (executeCommit db).store.indexes = db.store.indexes := by
  unfold executeCommit
  split
  · exact indexes_call _ .snapshot
  · rfl

/-- Undoing a transaction repairs no index. -/
theorem indexes_rollback (db : Db n) : (executeRollback db).store.indexes = db.store.indexes := by
  unfold executeRollback txnRollback
  cases db.txnManager.activeTxn with
  | none => rfl
  | some txn =>
      exact indexes_foldl (fun db op => indexes_undo db (undoCall txn.database op))
        txn.operations db

theorem indexes_undoDownTo (target : Nat) (ops : List TxnOperation) (count : Nat) (db : Db n) :
    (undoDownTo target ops count db).2.2.store.indexes = db.store.indexes := by
  fun_induction undoDownTo target ops count db with
  | case1 => rfl
  | case2 op ops count db _ ih => exact ih.trans (indexes_undo db _)
  | case3 => rfl

theorem indexes_rollbackTo (db : Db n) (name : CStr) :
    (executeRollbackTo db name).store.indexes = db.store.indexes := by
  unfold executeRollbackTo txnRollbackToSavepoint
  cases db.txnManager.activeTxn with
  | none => rfl
  | some txn =>
      dsimp only
      cases txn.savepoints.find? fun sp => sp.name = name with
      | none => rfl
      | some sp => exact indexes_undoDownTo sp.operationCount txn.operations txn.operationCount db

omit [NeZero n] in
theorem indexes_savepoint (db : Db n) (name : CStr) :
    (executeSavepoint db name).store.indexes = db.store.indexes := by
  unfold executeSavepoint txnSavepoint
  cases db.txnManager.activeTxn with
  | none => rfl
  | some txn =>
      dsimp only
      split_ifs <;> rfl

omit [NeZero n] in
theorem indexes_releaseSavepoint (db : Db n) (name : CStr) :
    (executeReleaseSavepoint db name).store.indexes = db.store.indexes := by
  unfold executeReleaseSavepoint txnReleaseSavepoint
  cases db.txnManager.activeTxn with
  | none => rfl
  | some txn =>
      dsimp only
      split_ifs <;> rfl

end Frame

/-! ## Rows offered to the indexes of a table -/

/-- Adding nodes changes neither the table nor the column of an index. -/
theorem offerTokens_names (pk : CStr) (toks : List CStr) (idx : Index) :
    let offered := toks.foldl
      (fun idx tok =>
        match CStr.breakAt 58 tok with
        | some (column, val) => if column = idx.column then kvAddToIndex idx val pk else idx
        | none => idx) idx
    offered.table = idx.table ∧ offered.column = idx.column := by
  induction toks generalizing idx with
  | nil => exact ⟨rfl, rfl⟩
  | cons tok toks ih =>
      rw [List.foldl_cons]
      obtain ⟨htable, hcolumn⟩ := ih _
      refine ⟨htable.trans ?_, hcolumn.trans ?_⟩
      all_goals
        split
        · split <;> rfl
        · rfl

omit [NeZero n] in
theorem kvUpdateIndexes_eq_map (store : KVStore n) (offered pk row : CStr) :
    ∃ f : Index → Index, (kvUpdateIndexes store offered pk row).indexes = store.indexes.map f ∧
      (∀ idx, (f idx).table = idx.table ∧ (f idx).column = idx.column) ∧
      ∀ idx, idx.table ≠ offered → f idx = idx := by
  refine ⟨_, rfl, fun idx => ?_, fun idx hne => if_neg hne⟩
  split
  · exact offerTokens_names pk (CStr.tokens 59 row) idx
  · exact ⟨rfl, rfl⟩

/-- `after` has the indexes of `before`, and those of other tables than `offered` with the nodes
they had. -/
structure OnlyOffered (offered : CStr) (before after : KVStore n) : Prop where
  has : ∀ table col, kvHasIndex after table col = kvHasIndex before table col
  find : ∀ table, table ≠ offered → ∀ col,
    kvFindIndex after table col = kvFindIndex before table col

section Offered

variable {offered : CStr} {before middle after : KVStore n}

omit [NeZero n] in
theorem onlyOffered_of_eq (heq : after.indexes = before.indexes) :
    OnlyOffered offered before after where
  has _ _ := by rw [kvHasIndex, kvFindIndex, heq, kvHasIndex, kvFindIndex]
  find _ _ _ := by rw [kvFindIndex, heq, kvFindIndex]

omit [NeZero n] in
theorem OnlyOffered.trans (h₁ : OnlyOffered offered before middle)
    (h₂ : OnlyOffered offered middle after) : OnlyOffered offered before after where
  has table col := (h₂.has table col).trans (h₁.has table col)
  find table hne col := (h₂.find table hne col).trans (h₁.find table hne col)

omit [NeZero n] in
theorem onlyOffered_kvUpdateIndexes (store : KVStore n) (offered pk row : CStr) :
    OnlyOffered offered store (kvUpdateIndexes store offered pk row) := by
  obtain ⟨f, hmap, hnames, hother⟩ := kvUpdateIndexes_eq_map store offered pk row
  have hfind : ∀ table col, kvFindIndex (kvUpdateIndexes store offered pk row) table col =
      (kvFindIndex store table col).map f := by
    intro table col
    rw [kvFindIndex, hmap, List.find?_map]
    congr 2
    funext idx
    simp only [Function.comp_apply, (hnames idx).1, (hnames idx).2]
  constructor
  · intro table col
    rw [kvHasIndex, hfind, Option.isSome_map, kvHasIndex]
  · intro table hne col
    rw [hfind]
    cases hidx : kvFindIndex store table col with
    | none => rfl
    | some idx =>
        have htable : idx.table = table := by
          have hsat := List.find?_some hidx
          simp only [Bool.and_eq_true, decide_eq_true_eq] at hsat
          exact hsat.1
        exact congrArg some (hother idx (htable ▸ hne))

end Offered

section Insert

variable {db db' : Db n} {ctx : SessionContext} {tableName : CStr}

theorem onlyOffered_insertRow {schema : Option CStr} {state state' : Db n × Nat}
    {vals : List CStr} (hexec : insertRow ctx tableName schema state vals = some state') :
    OnlyOffered tableName state.1.store state'.1.store := by
  obtain ⟨db, count⟩ := state
  unfold insertRow at hexec
  dsimp only at hexec
  cases hpk : vals[pkIndex schema]? with
  | none =>
      rw [hpk] at hexec
      cases hexec
      exact onlyOffered_of_eq rfl
  | some id =>
      rw [hpk] at hexec
      obtain ⟨⟨finalId, db₁⟩, hid, hexec⟩ := Option.bind_eq_some_iff.mp hexec
      have hmoved : db₁.store.indexes = db.store.indexes := by
        rcases resolveId_cases hid with ⟨_, rfl⟩ | ⟨_, seqKey, val, _, rfl⟩
        · rfl
        · exact indexes_call db _
      obtain ⟨key, _, hexec⟩ := Option.bind_eq_some_iff.mp hexec
      dsimp only at hexec
      split at hexec
      · cases hexec
        exact onlyOffered_of_eq hmoved
      · obtain ⟨rowBin, _, hexec⟩ := Option.bind_eq_some_iff.mp hexec
        obtain ⟨db₂, hoffer, hexec⟩ := Option.bind_eq_some_iff.mp hexec
        cases hexec
        have hstored : (txnLogInsert (db₁.call (.put key { data := rowBin, type := .row }))
            tableName key).store.indexes = db.store.indexes := by
          simpa [txnLogInsert] using hmoved
        refine (onlyOffered_of_eq hstored).trans ?_
        unfold updateIndexes at hoffer
        cases schema with
        | none =>
            cases hoffer
            exact onlyOffered_of_eq rfl
        | some schema =>
            obtain ⟨text, _, rfl⟩ := Option.map_eq_some_iff.mp hoffer
            exact onlyOffered_kvUpdateIndexes _ tableName key text

theorem onlyOffered_insertRows {schema : Option CStr} {state state' : Db n × Nat}
    {rows : List (List CStr)}
    (hexec : insertRows ctx tableName schema state rows = some state') :
    OnlyOffered tableName state.1.store state'.1.store := by
  induction rows generalizing state with
  | nil =>
      cases hexec
      exact onlyOffered_of_eq rfl
  | cons vals rows ih =>
      obtain ⟨state₁, hrow, hrows⟩ := Option.bind_eq_some_iff.mp hexec
      exact (onlyOffered_insertRow hrow).trans (ih hrows)

/-- An INSERT offers its rows to the indexes of the bare table name. -/
theorem onlyOffered_insert {rows : List (List CStr)}
    (hexec : executeInsert db ctx tableName rows = some db') :
    OnlyOffered tableName db.store db'.store := by
  unfold executeInsert at hexec
  split at hexec
  · cases hexec
    exact onlyOffered_of_eq rfl
  · obtain ⟨metaKey, _, hexec⟩ := Option.bind_eq_some_iff.mp hexec
    obtain ⟨schema, _, hexec⟩ := Option.bind_eq_some_iff.mp hexec
    obtain ⟨state, hrows, hexec⟩ := Option.bind_eq_some_iff.mp hexec
    cases hexec
    exact onlyOffered_insertRows hrows

end Insert

/-! ## What a statement can do to the indexes -/

/-- The name CREATE INDEX registers an index under. -/
def indexTable (database tableName : CStr) : CStr :=
  CStr.lit "DB:" ++ database ++ CStr.lit ":TBL:" ++ tableName

/-- A statement leaves the indexes alone, unless it is an INSERT or makes one. -/
theorem executeQuery_indexes {db db' : Db n} {ctx ctx' : SessionContext} {stmt : ASTNode}
    (hexec : executeQuery db ctx stmt = some (db', ctx')) :
    db'.store.indexes = db.store.indexes ∨
      (∃ tableName rows, stmt = .insert tableName rows ∧
        OnlyOffered tableName db.store db'.store) ∨
      ∃ tableName colName, stmt = .createIndex tableName colName ∧
        db'.store.indexes =
          { table := indexTable ctx.currentDb tableName, column := colName, nodes := [] } ::
            db.store.indexes := by
  cases stmt with
  | createTable tableName columns =>
      obtain ⟨_, hdone, heq⟩ := Option.map_eq_some_iff.mp hexec
      cases heq
      exact .inl (indexes_createTable hdone)
  | insert tableName rows =>
      obtain ⟨_, hdone, heq⟩ := Option.map_eq_some_iff.mp hexec
      cases heq
      exact .inr (.inl ⟨tableName, rows, rfl, onlyOffered_insert hdone⟩)
  | delete tableName whereClause =>
      obtain ⟨_, hdone, heq⟩ := Option.map_eq_some_iff.mp hexec
      cases heq
      exact .inl (indexes_delete hdone)
  | update tableName sets whereClause =>
      obtain ⟨_, hdone, heq⟩ := Option.map_eq_some_iff.mp hexec
      cases heq
      exact .inl (indexes_update hdone)
  | dropTable tableName =>
      obtain ⟨_, hdone, heq⟩ := Option.map_eq_some_iff.mp hexec
      cases heq
      exact .inl (indexes_dropTable hdone)
  | docInsert collection jsonBody =>
      obtain ⟨_, hdone, heq⟩ := Option.map_eq_some_iff.mp hexec
      cases heq
      exact .inl (indexes_docInsert hdone)
  | docRemove collection docId =>
      obtain ⟨_, hdone, heq⟩ := Option.map_eq_some_iff.mp hexec
      cases heq
      exact .inl (indexes_docRemove hdone)
  | checkpoint =>
      cases hexec
      exact .inl (indexes_call _ .snapshot)
  | createIndex tableName colName =>
      obtain ⟨_, hdone, heq⟩ := Option.map_eq_some_iff.mp hexec
      cases heq
      obtain ⟨tableFull, hfull, hmade⟩ := Option.bind_eq_some_iff.mp hdone
      cases hmade
      obtain ⟨rfl, _⟩ := CStr.sprintf_eq_some hfull
      exact .inr (.inr ⟨tableName, colName, rfl, rfl⟩)
  | createUser username password =>
      obtain ⟨_, hdone, heq⟩ := Option.map_eq_some_iff.mp hexec
      cases heq
      exact .inl (indexes_createUser hdone)
  | createDb dbName =>
      obtain ⟨_, hdone, heq⟩ := Option.map_eq_some_iff.mp hexec
      cases heq
      exact .inl (indexes_createDb hdone)
  | useDb dbName => exact .inl (indexes_useDb hexec)
  | dropDb dbName =>
      obtain ⟨_, hdone, heq⟩ := Option.map_eq_some_iff.mp hexec
      cases heq
      exact .inl (indexes_dropDb hdone)
  | begin =>
      cases hexec
      exact .inl (indexes_begin db ctx)
  | commit =>
      cases hexec
      exact .inl (indexes_commit db)
  | rollback =>
      cases hexec
      exact .inl (indexes_rollback db)
  | rollbackTo name =>
      cases hexec
      exact .inl (indexes_rollbackTo db name)
  | savepoint name =>
      cases hexec
      exact .inl (indexes_savepoint db name)
  | releaseSavepoint name =>
      cases hexec
      exact .inl (indexes_releaseSavepoint db name)
  | «foreign» calls currentDb =>
      cases hexec
      exact .inl (indexes_foldl indexes_call calls db)

/-! ## Names -/

theorem startsWith_indexTable (database tableName : CStr) :
    CStr.startsWith (CStr.lit "DB:") (indexTable database tableName) = true := by
  unfold CStr.startsWith indexTable
  rw [List.isPrefixOf_iff_prefix, CStr.val_append, CStr.val_append, CStr.val_append,
    List.append_assoc, List.append_assoc]
  exact List.prefix_append _ _

/-- The full name of an index has a colon in it. -/
theorem not_startsWith_of_isWord {name : CStr} (hword : Sql.isWord name = true) :
    CStr.startsWith (CStr.lit "DB:") name = false := by
  refine Bool.eq_false_iff.mpr fun hstarts => ?_
  have hcolon : (58 : UInt8) ∈ name.val :=
    (List.isPrefixOf_iff_prefix.mp hstarts).mem (by decide)
  exact absurd (List.all_eq_true.mp hword 58 hcolon) (by decide)

theorem indexTable_ne_of_isWord {database tableName name : CStr}
    (hword : Sql.isWord name = true) : indexTable database tableName ≠ name := by
  rintro rfl
  have hstarts := startsWith_indexTable database tableName
  rw [not_startsWith_of_isWord hword] at hstarts
  cases hstarts

/-! ## A SELECT scans no index -/

/-- Every index has been registered under a full name. -/
def FullNames (store : KVStore n) : Prop :=
  ∀ table col, kvHasIndex store table col = true →
    CStr.startsWith (CStr.lit "DB:") table = true

theorem FullNames.executeQuery {db db' : Db n} {ctx ctx' : SessionContext} {stmt : ASTNode}
    (hnames : FullNames db.store) (hexec : executeQuery db ctx stmt = some (db', ctx')) :
    FullNames db'.store := by
  intro table col hhas
  rcases executeQuery_indexes hexec with heq | ⟨tableName, rows, _, hoffered⟩ |
    ⟨tableName, colName, _, heq⟩
  · rw [kvHasIndex, kvFindIndex, heq] at hhas
    exact hnames table col hhas
  · rw [hoffered.has] at hhas
    exact hnames table col hhas
  · rw [kvHasIndex, kvFindIndex, heq] at hhas
    by_cases hnew : indexTable ctx.currentDb tableName = table
    · rw [← hnew]
      exact startsWith_indexTable ctx.currentDb tableName
    · rw [List.find?_cons_of_neg (by simp [hnew])] at hhas
      exact hnames table col hhas

theorem FullNames.run {db db' : Db n} {ctx ctx' : SessionContext} {stmts : List ASTNode}
    (hnames : FullNames db.store) (hrun : runStatements db ctx stmts = some (db', ctx')) :
    FullNames db'.store := by
  induction stmts generalizing db ctx with
  | nil =>
      cases hrun
      exact hnames
  | cons stmt stmts ih =>
      obtain ⟨⟨db₁, ctx₁⟩, hexec, hrest⟩ := Option.bind_eq_some_iff.mp hrun
      exact ih (hnames.executeQuery hexec) hrest

theorem fullNames_serverInit : FullNames serverInit.store := by
  intro table col hhas
  cases hhas

omit [NeZero n] in
/-- A SELECT asks for the indexes of the bare table name, and there are none. -/
theorem accessPath_ne_indexScan {store : KVStore n} {tableName : CStr}
    (hnames : FullNames store) (hword : Sql.isWord tableName = true)
    {whereClause : Option ASTExpr} {path : AccessPath}
    (hpath : accessPath store tableName whereClause = some path) (col op val : CStr) :
    path ≠ .indexScan col op val := by
  rintro rfl
  unfold accessPath at hpath
  split at hpath
  · obtain ⟨name, _, hchosen⟩ := Option.bind_eq_some_iff.mp hpath
    split at hchosen
    · cases hchosen
    split at hchosen
    · next hindex =>
        have hstarts := hnames tableName name hindex.1
        rw [not_startsWith_of_isWord hword] at hstarts
        cases hstarts
    · cases hchosen
  · cases hpath

/-- On a server that started empty, every SELECT on a table looks one row up or scans it all. -/
theorem executeSelect_path {ctx ctx' session : SessionContext} {stmts : List ASTNode}
    {db : Db 1024} {stmt : Sql.SelectStmt} {run : SelectRun}
    (hrun : runStatements serverInit ctx stmts = some (db, ctx'))
    (hword : Sql.isWord stmt.clauses.tableName = true)
    (hselect : executeSelect db.store session stmt = some (some run)) :
    run.path = .fullTableScan ∨ ∃ id, run.path = .primaryKeyLookup id := by
  have hpath := (executeSelect_eq_some hselect).1
  cases hchosen : run.path with
  | primaryKeyLookup id => exact .inr ⟨id, rfl⟩
  | indexScan col op val =>
      rw [hchosen] at hpath
      exact absurd rfl
        (accessPath_ne_indexScan (fullNames_serverInit.run hrun) hword hpath col op val)
  | fullTableScan => exact .inl rfl

def indexedTable : List ASTNode :=
  [.createTable (CStr.lit "t")
      [{ name := CStr.lit "id", type := CStr.lit "INT", isPk := true },
        { name := CStr.lit "c", type := CStr.lit "TEXT", isPk := false }],
    .createIndex (CStr.lit "t") (CStr.lit "c")]

theorem executeSelect_path_indexed :
    ∃ db ctx run, runStatements serverInit publicSession indexedTable = some (db, ctx) ∧
      executeSelect db.store publicSession (selectWhere "c" "a") = some (some run) ∧
        (run.path = .fullTableScan ∨ ∃ id, run.path = .primaryKeyLookup id) := by
  obtain ⟨⟨db, ctx⟩, hrun, hselect⟩ := (Option.any_eq_true _ _).mp
    (show ((runStatements serverInit publicSession indexedTable).any fun r =>
        (executeSelect r.1.store publicSession (selectWhere "c" "a")).any Option.isSome) = true by
      decide +kernel)
  obtain ⟨found, hselect, hfound⟩ := (Option.any_eq_true _ _).mp hselect
  obtain ⟨run, rfl⟩ := Option.isSome_iff_exists.mp hfound
  exact ⟨db, ctx, run, hrun, hselect, executeSelect_path hrun (by decide) hselect⟩

/-! ## The rows inserted since an index was made -/

/-- A server after CREATE INDEX, with the keys of the rows that INSERT has stored in the table
since, as they stand now and as they stood when the open transaction began. -/
structure IndexHistory (n : Nat) where
  db : Db n
  inserted : List CStr
  atBegin : List CStr

/-- The keys of a table that are in one store and were not found in an earlier one; a row that a cut
probe chain hid there counts as new. -/
def newKeys (database tableName : CStr) (before after : KVStore n) : List CStr :=
  ((Lib.OpenAddressing.toList after.entries).map Prod.fst).filter fun key =>
    CStr.startsWith (indexTable database tableName ++ CStr.lit ":") key && (kvGet before key).isNone

/-- A statement of some session.  ROLLBACK takes back what was inserted in its transaction. -/
def IndexHistory.step (database tableName : CStr) (h : IndexHistory n)
    (s : SessionContext × ASTNode) : Option (IndexHistory n) :=
  (executeQuery h.db s.1 s.2).map fun r =>
    match s.2 with
    | .insert name _ =>
        { h with
          db := r.1
          inserted :=
            if s.1.currentDb = database ∧ name = tableName then
              h.inserted ++ newKeys database tableName h.db.store r.1.store
            else h.inserted }
    | .begin =>
        { h with
          db := r.1
          atBegin :=
            if (txnBegin h.db.txnManager s.1.currentUser s.1.currentDb).isSome then h.inserted
            else h.atBegin }
    | .rollback =>
        { h with
          db := r.1
          inserted := if (txnRollback h.db).isSome then h.atBegin else h.inserted }
    | _ => { h with db := r.1 }

def IndexHistory.run (database tableName : CStr) :
    IndexHistory n → List (SessionContext × ASTNode) → Option (IndexHistory n)
  | h, [] => some h
  | h, s :: steps => (h.step database tableName s).bind fun h => h.run database tableName steps

/-- The state CREATE INDEX leaves. -/
def IndexHistory.start (db : Db n) : IndexHistory n where
  db := db
  inserted := []
  atBegin := []

/-- The statements on rows and the transactions they are in; a table name is one word. -/
def isRowStatement : ASTNode → Bool
  | .insert tableName _ => Sql.isWord tableName
  | .update _ _ _ => true
  | .delete _ _ => true
  | .begin => true
  | .commit => true
  | .rollback => true
  | _ => false

/-- The position of a column in the schema a table has now. -/
def columnOf (store : KVStore n) (database tableName colName : CStr) : Option Nat := do
  let key ← sysGenerateKeySchema database tableName
  let schemaVal ← kvGet store key
  getColIndex (← tableColumns schemaVal) colName

/-- The value in a column of an entry, if that is a row inserted since. -/
def IndexHistory.value (h : IndexHistory n) (database tableName colName : CStr)
    (entry : CStr × Value) : Option CStr :=
  if entry.1 ∈ h.inserted then do
    let row ← tableRow database tableName entry
    row[← columnOf h.db.store database tableName colName]?
  else none

/-- The keys of the rows inserted since that have the value `v` in a column. -/
def IndexHistory.keysOf (h : IndexHistory n) (database tableName colName v : CStr) : List CStr :=
  ((Lib.OpenAddressing.toList h.db.store.entries).filter fun entry =>
    h.value database tableName colName entry = some v).map Prod.fst

/-- The keys an index scan for one value leads to. -/
def scanIndex (store : KVStore n) (table col v : CStr) : Option (List CStr) :=
  kvScanIndexRange store table col v true
    (fun pk val keys => if val = v then some (keys ++ [pk], true) else some (keys, false)) []

/-- Scanning the index for any value gives the keys of the rows inserted since that have it. -/
def IndexHistory.Exact (h : IndexHistory n) (database tableName colName : CStr) : Prop :=
  ∀ v, ∃ keys, scanIndex h.db.store (indexTable database tableName) colName v = some keys ∧
    keys.Perm (h.keysOf database tableName colName v)

/-! ## The index stays empty -/

def EmptyIndex (store : KVStore n) (table col : CStr) : Prop :=
  ∃ idx, kvFindIndex store table col = some idx ∧ idx.nodes = []

omit [NeZero n] in
theorem EmptyIndex.cons {before after : KVStore n} {table col : CStr} {idx : Index}
    (hempty : EmptyIndex before table col) (hidx : idx.nodes = [])
    (hcons : after.indexes = idx :: before.indexes) : EmptyIndex after table col := by
  unfold EmptyIndex kvFindIndex
  rw [hcons, List.find?_cons]
  split
  · exact ⟨idx, rfl, hidx⟩
  · exact hempty

/-- No row statement adds a node to an index with a full name. -/
theorem EmptyIndex.executeQuery {db db' : Db n} {ctx ctx' : SessionContext} {stmt : ASTNode}
    {database tableName col : CStr}
    (hempty : EmptyIndex db.store (indexTable database tableName) col)
    (hrow : isRowStatement stmt = true) (hexec : executeQuery db ctx stmt = some (db', ctx')) :
    EmptyIndex db'.store (indexTable database tableName) col := by
  rcases executeQuery_indexes hexec with heq | ⟨name, rows, rfl, hoffered⟩ | ⟨name, colName, _, heq⟩
  · unfold EmptyIndex kvFindIndex
    rw [heq]
    exact hempty
  · unfold EmptyIndex
    rw [hoffered.find _ (indexTable_ne_of_isWord hrow)]
    exact hempty
  · exact hempty.cons rfl heq

theorem IndexHistory.step_db {h h' : IndexHistory n} {database tableName : CStr}
    {s : SessionContext × ASTNode} (hstep : h.step database tableName s = some h') :
    ∃ ctx', executeQuery h.db s.1 s.2 = some (h'.db, ctx') := by
  obtain ⟨⟨db', ctx'⟩, hexec, rfl⟩ := Option.map_eq_some_iff.mp hstep
  refine ⟨ctx', hexec.trans ?_⟩
  dsimp only
  split <;> rfl

theorem EmptyIndex.run {h h' : IndexHistory n} {database tableName col : CStr}
    {steps : List (SessionContext × ASTNode)}
    (hempty : EmptyIndex h.db.store (indexTable database tableName) col)
    (hsteps : ∀ s ∈ steps, isRowStatement s.2 = true)
    (hrun : h.run database tableName steps = some h') :
    EmptyIndex h'.db.store (indexTable database tableName) col := by
  induction steps generalizing h with
  | nil =>
      cases hrun
      exact hempty
  | cons s steps ih =>
      obtain ⟨h₁, hstep, hrest⟩ := Option.bind_eq_some_iff.mp hrun
      obtain ⟨ctx', hexec⟩ := IndexHistory.step_db hstep
      exact ih (hempty.executeQuery (hsteps s List.mem_cons_self) hexec)
        (fun s' hs' => hsteps s' (List.mem_cons_of_mem s hs')) hrest

omit [NeZero n] in
theorem EmptyIndex.scan {store : KVStore n} {table col : CStr}
    (hempty : EmptyIndex store table col) (v : CStr) : scanIndex store table col v = some [] := by
  obtain ⟨idx, hfind, hnodes⟩ := hempty
  unfold scanIndex kvScanIndexRange kvSearchIndexRange
  rw [hfind]
  dsimp only
  rw [hnodes]
  rfl

/-- A table `t` with a column `c`. -/
def columnDb : Db 1024 :=
  ((executeCreateTable serverInit publicSession (CStr.lit "t")
    [{ name := CStr.lit "id", type := CStr.lit "INT", isPk := true },
      { name := CStr.lit "c", type := CStr.lit "TEXT", isPk := false }])).getD serverInit

/-- The state after CREATE INDEX on `c` and the statements that follow. -/
def indexedRun (stmts : List ASTNode) : Option (IndexHistory 1024) :=
  (executeCreateIndex columnDb publicSession (CStr.lit "t") (CStr.lit "c")).bind fun made =>
    (IndexHistory.start made).run (CStr.lit "public") (CStr.lit "t")
      (stmts.map fun stmt => (publicSession, stmt))

/-- One row inserted, one deleted again, one rolled back, and the index has none of them. -/
def rowStatements : List ASTNode :=
  [.insert (CStr.lit "t") [[CStr.lit "1"], [CStr.lit "2", CStr.lit "a"]],
    .delete (CStr.lit "t") (some (.binary (.identifier (CStr.lit "id")) (CStr.lit "=")
      (.literal (CStr.lit "2")))),
    .begin, .insert (CStr.lit "t") [[CStr.lit "3", CStr.lit "b"]], .rollback]

/-- After any run of row statements, scanning the index gives the keys of the rows inserted since
CREATE INDEX if and only if none of them has a value in the column. -/
theorem indexExact_iff (db made : Db n) (ctx : SessionContext) (tableName colName : CStr)
    (steps : List (SessionContext × ASTNode)) (h : IndexHistory n)
    (hmade : executeCreateIndex db ctx tableName colName = some made)
    (hsteps : ∀ s ∈ steps, isRowStatement s.2 = true)
    (hrun : (IndexHistory.start made).run ctx.currentDb tableName steps = some h) :
    h.Exact ctx.currentDb tableName colName ↔
      ∀ entry ∈ Lib.OpenAddressing.toList h.db.store.entries,
        h.value ctx.currentDb tableName colName entry = none := by
  have hstart : EmptyIndex made.store (indexTable ctx.currentDb tableName) colName := by
    obtain ⟨tableFull, hfull, hdone⟩ := Option.bind_eq_some_iff.mp hmade
    cases hdone
    obtain ⟨rfl, _⟩ := CStr.sprintf_eq_some hfull
    refine ⟨_, List.find?_cons_of_pos ?_, rfl⟩
    simp [indexTable]
  have hempty := EmptyIndex.run (h := IndexHistory.start made) hstart hsteps hrun
  constructor
  · intro hexact entry hentry
    cases hvalue : h.value ctx.currentDb tableName colName entry with
    | none => rfl
    | some v =>
        obtain ⟨keys, hscan, hperm⟩ := hexact v
        rw [hempty.scan v] at hscan
        cases hscan
        have hkeys := List.map_eq_nil_iff.mp (List.nil_perm.mp hperm)
        exact absurd (decide_eq_true hvalue) (List.filter_eq_nil_iff.mp hkeys entry hentry)
  · intro hnone v
    refine ⟨[], hempty.scan v, List.nil_perm.mpr (List.map_eq_nil_iff.mpr ?_)⟩
    refine List.filter_eq_nil_iff.mpr fun entry hentry => ?_
    rw [hnone entry hentry]
    simp

theorem indexExact_rowStatements :
    ∃ h, indexedRun rowStatements = some h ∧
      (h.Exact (CStr.lit "public") (CStr.lit "t") (CStr.lit "c") ↔
        ∀ entry ∈ Lib.OpenAddressing.toList h.db.store.entries,
          h.value (CStr.lit "public") (CStr.lit "t") (CStr.lit "c") entry = none) := by
  obtain ⟨h, hrun⟩ := Option.isSome_iff_exists.mp
    (show (indexedRun rowStatements).isSome = true by decide +kernel)
  obtain ⟨made, hmade, hsteps⟩ := Option.bind_eq_some_iff.mp hrun
  exact ⟨h, hrun, indexExact_iff columnDb made publicSession _ _ _ h hmade (by decide) hsteps⟩

/-- A row inserted after CREATE INDEX is not in the index. -/
theorem index_misses_insert :
    ∃ h, indexedRun [.insert (CStr.lit "t") [[CStr.lit "1", CStr.lit "a"]]] = some h ∧
      h.keysOf (CStr.lit "public") (CStr.lit "t") (CStr.lit "c") (CStr.lit "a") =
        [CStr.lit "DB:public:TBL:t:1"] ∧
      scanIndex h.db.store (indexTable (CStr.lit "public") (CStr.lit "t")) (CStr.lit "c")
        (CStr.lit "a") = some [] ∧
      ¬ h.Exact (CStr.lit "public") (CStr.lit "t") (CStr.lit "c") := by
  have hview : (indexedRun [.insert (CStr.lit "t") [[CStr.lit "1", CStr.lit "a"]]]).map
      (fun h =>
        (h.keysOf (CStr.lit "public") (CStr.lit "t") (CStr.lit "c") (CStr.lit "a"),
          scanIndex h.db.store (indexTable (CStr.lit "public") (CStr.lit "t")) (CStr.lit "c")
            (CStr.lit "a"))) =
        some ([CStr.lit "DB:public:TBL:t:1"], some []) := by decide +kernel
  obtain ⟨h, hrun, hfound⟩ := Option.map_eq_some_iff.mp hview
  obtain ⟨hkeys, hscan⟩ := Prod.mk.inj hfound
  refine ⟨h, hrun, hkeys, hscan, fun hexact => ?_⟩
  obtain ⟨keys, hscanned, hperm⟩ := hexact (CStr.lit "a")
  rw [hscan] at hscanned
  cases hscanned
  rw [hkeys] at hperm
  cases List.nil_perm.mp hperm

end Executor
end InventixDB
