import InventixDB.Transaction.Undo

/-!
# Rollback — what ROLLBACK restores

A statement is `Covered` if each of its writes is taken back by its undo record or changes
nothing.  The source misses this in three places: sequence counters and documents are written
without a record, a dropped table's counter is deleted without one, and old values come back as
rows whatever their type was.  From BEGIN to ROLLBACK, covered statements leave no trace.
-/

namespace InventixDB
namespace Transaction

open Storage
open Executor
open Lib.OpenAddressing

variable {n : Nat} [NeZero n]

/-! ## Keys of one database -/

theorem rollbackSchemaKey_eq {database tableName key : CStr}
    (hkey : sysGenerateKeySchema database tableName = some key) :
    rollbackSchemaKey database tableName = key := by
  obtain ⟨rfl, hlen⟩ := CStr.sprintf_eq_some hkey
  exact CStr.snprintf_of_lt hlen

theorem schemaKey_ne_seqKey {database tableName tableName' key seqKey : CStr}
    (hkey : sysGenerateKeySchema database tableName = some key)
    (hseq : sysGenerateKeySeq database tableName' = some seqKey) : seqKey ≠ key := by
  obtain ⟨rfl, _⟩ := CStr.sprintf_eq_some hkey
  obtain ⟨rfl, _⟩ := CStr.sprintf_eq_some hseq
  have hmeta : (CStr.lit ":META:TBL:").val = 58 :: 77 :: [69, 84, 65, 58, 84, 66, 76, 58] := by
    decide
  have hcounter : (CStr.lit ":SEQ:").val = 58 :: 83 :: [69, 81, 58] := by decide
  intro heq
  have hval := congrArg Subtype.val heq
  simp only [CStr.val_append, List.append_assoc, List.append_cancel_left_eq, hmeta,
    hcounter] at hval
  simp at hval

/-! ## Covered statements -/

/-- The row moves no counter, except one that is there and in `F`. -/
def RowCovered (F : CStr → Bool) (ctx : SessionContext) (tableName : CStr)
    (schema : Option CStr) (db : Db n) (vals : List CStr) : Prop :=
  ∀ id ∈ vals[pkIndex schema]?, movesCounter db ctx tableName id = true →
    ∀ seqKey ∈ sysGenerateKeySeq ctx.currentDb tableName,
      F seqKey = true ∧ (db.get seqKey).isSome = true

instance (F : CStr → Bool) (ctx : SessionContext) (tableName : CStr) (schema : Option CStr)
    (db : Db n) (vals : List CStr) : Decidable (RowCovered F ctx tableName schema db vals) := by
  unfold RowCovered
  infer_instance

/-- Undoing what the statement logs restores what it writes, off `F`.  With `ddl` tables may
come and go, provided that their counter does not. -/
def Covered (F : CStr → Bool) (ddl : Bool) (db : Db n) (ctx : SessionContext) : ASTNode → Prop
  | .insert tableName rows =>
      ∀ metaKey ∈ sysGenerateKeySchema ctx.currentDb tableName,
        ∀ schema ∈ schemaText (db.get metaKey),
          RowsMeet (RowCovered F ctx tableName schema) ctx tableName schema (db, 0) rows
  | .delete tableName whereClause =>
      ∀ target ∈ deleteTarget whereClause, ∀ id ∈ target,
        ∀ key ∈ sysGenerateKeyTable ctx.currentDb tableName id,
          ∀ old ∈ db.get key, old.type = .row ∧ old.data ≠ []
  | .update tableName _ whereClause =>
      ∀ id ∈ updateTarget whereClause,
        ∀ key ∈ sysGenerateKeyTable ctx.currentDb tableName id,
          ∀ old ∈ db.get key, old.type = .row
  | .createTable tableName _ =>
      ∀ key ∈ sysGenerateKeySchema ctx.currentDb tableName, db.get key = none →
        ddl = true ∧ ∀ seqKey ∈ sysGenerateKeySeq ctx.currentDb tableName,
          db.get seqKey = some { data := CStr.intBytes 0, type := .row }
  | .dropTable tableName =>
      ∀ key ∈ sysGenerateKeySchema ctx.currentDb tableName, ∀ v ∈ db.get key,
        ddl = true ∧ v.type = .schema ∧
          (∀ schema ∈ CStr.ofBuffer? v.data, v.data = schema.val ++ [0]) ∧
          ∀ seqKey ∈ sysGenerateKeySeq ctx.currentDb tableName, db.get seqKey = none
  | .docRemove collection docId =>
      ∀ key ∈ CStr.sprintf 256 (CStr.lit "DB:" ++ ctx.currentDb ++ CStr.lit ":DOC:" ++
        collection ++ CStr.lit ":" ++ docId), db.get key = none
  | _ => False

instance (F : CStr → Bool) (ddl : Bool) (db : Db n) (ctx : SessionContext) (stmt : ASTNode) :
    Decidable (Covered F ddl db ctx stmt) := by
  cases stmt <;> dsimp only [Covered] <;> infer_instance

/-- The records of INSERT, DELETE and UPDATE. -/
def TxnOperation.isRowChange (op : TxnOperation) : Prop :=
  op.type = .insert ∨ op.type = .delete ∨ op.type = .update

/-- A covered statement is a chain of reversible writes; without `ddl` it logs row changes
only. -/
theorem covered_chain {F : CStr → Bool} {ddl : Bool} {db db' : Db n} {ctx ctx' : SessionContext}
    {stmt : ASTNode} (htxn : db.txnManager.activeTxn ≠ none)
    (hcov : Covered F ddl db ctx stmt) (hexec : executeQuery db ctx stmt = some (db', ctx')) :
    ctx' = ctx ∧ Chain
      (fun db w => Reversible F ctx.currentDb db w ∧
        ∀ op ∈ w.record, ddl = true ∨ op.isRowChange) db db' := by
  have hctx : ∀ {o : Option (Db n)}, o.map (·, ctx) = some (db', ctx') →
      o = some db' ∧ ctx' = ctx := by
    intro o ho
    obtain ⟨db₁, hdb, heq⟩ := Option.map_eq_some_iff.mp ho
    cases heq
    exact ⟨hdb, rfl⟩
  have hrow : ∀ {db : Db n} {w : Write}, Reversible F ctx.currentDb db w →
      (∀ op ∈ w.record, op.isRowChange) → Reversible F ctx.currentDb db w ∧
        ∀ op ∈ w.record, ddl = true ∨ op.isRowChange := by
    intro db w hrev hchange
    exact ⟨hrev, fun op hop => Or.inr (hchange op hop)⟩
  cases stmt with
  | insert tableName rows =>
      obtain ⟨hins, rfl⟩ := hctx hexec
      refine ⟨rfl, chain_insert (Q := RowCovered F ctx' tableName) hins
        (fun metaKey schema hkey hschema => hcov metaKey hkey schema hschema) ?_⟩
      intro schema state vals state' hmeet hins
      refine chain_insertRow hins ?_ ?_
      · intro id seqKey val hpk hmoves hseq
        obtain ⟨hF, hthere⟩ := hmeet id hpk hmoves seqKey hseq
        exact hrow (reversible_put_counter hF hthere val) (by simp)
      · intro db₁ key row hget
        exact hrow (reversible_insert hget _) (by simp [TxnOperation.isRowChange, createOperation])
  | delete tableName whereClause =>
      obtain ⟨hdel, rfl⟩ := hctx hexec
      refine ⟨rfl, chain_delete hdel ?_ ?_⟩
      · intro id key old htarget hkey hget
        obtain ⟨htype, hdata⟩ := hcov (some id) htarget id rfl key hkey old hget
        have hold : db.get key = some { data := old.data, type := .row } := by
          rw [hget, ← htype]
        exact hrow (reversible_delete hdata hold)
          (by simp [TxnOperation.isRowChange, createOperation])
      · intro key hget
        exact hrow (reversible_delete_absent hget) (by simp)
  | update tableName sets whereClause =>
      obtain ⟨hupd, rfl⟩ := hctx hexec
      refine ⟨rfl, chain_update hupd ?_⟩
      intro id key old row htarget hkey hget hdata
      have htype := hcov id htarget key hkey old hget
      have hold : db.get key = some { data := old.data, type := .row } := by
        rw [hget, ← htype]
      exact hrow (reversible_update hdata hold _)
        (by simp [TxnOperation.isRowChange, createOperation])
  | createTable tableName columns =>
      obtain ⟨hcreate, rfl⟩ := hctx hexec
      refine ⟨rfl, chain_createTable hcreate ?_ ?_⟩
      · intro key schema hkey hget
        obtain ⟨hddl, _⟩ := hcov key hkey hget
        exact ⟨reversible_createTable hget (rollbackSchemaKey_eq hkey) _, fun _ _ => Or.inl hddl⟩
      · intro key schema seqKey hkey hget hseq
        obtain ⟨_, hcounter⟩ := hcov key hkey hget
        refine hrow (reversible_put_same ?_) (by simp)
        -- The counter is still found after the schema has been put.
        have hfound := lookup_insert_of_some (v := { data := schema.val ++ [0], type := .schema })
          (schemaKey_ne_seqKey hkey hseq) (hcounter seqKey hseq)
        rw [Db.get, txnLogCreateTable, store_pushOperation, kvGet]
        rw [← entries_kvPut] at hfound
        exact hfound
  | dropTable tableName =>
      obtain ⟨hdrop, rfl⟩ := hctx hexec
      refine ⟨rfl, chain_dropTable hdrop ?_ ?_ ?_⟩
      · intro key v schema hkey hget hschema
        obtain ⟨hddl, htype, hdata, _⟩ := hcov key hkey v hget
        have hold : db.get key = some { data := schema.val ++ [0], type := .schema } := by
          rw [hget, ← hdata schema hschema, ← htype]
        exact ⟨reversible_dropTable hold (rollbackSchemaKey_eq hkey), fun _ _ => Or.inl hddl⟩
      · intro key v _ _ hnone
        exact absurd hnone htxn
      · intro db₁ key v seqKey hkey hget hseq hstore
        obtain ⟨_, _, _, hcounter⟩ := hcov key hkey v hget
        refine hrow (reversible_delete_absent ?_) (by simp)
        have hgone := lookup_erase_of_none (k := key) (hcounter seqKey hseq)
        rw [Db.get, hstore, kvGet]
        rw [← entries_kvDelete] at hgone
        exact hgone
  | docRemove collection docId =>
      obtain ⟨hremove, rfl⟩ := hctx hexec
      refine ⟨rfl, chain_docRemove hremove ?_⟩
      intro key v hkey hget
      have habsent := hcov key hkey
      rw [hget] at habsent
      cases habsent
  | _ => exact hcov.elim

/-! ## From BEGIN to ROLLBACK -/

/-- A session's statements, one after another. -/
def runStatements : Db n → SessionContext → List ASTNode → Option (Db n × SessionContext)
  | db, ctx, [] => some (db, ctx)
  | db, ctx, stmt :: stmts =>
      (executeQuery db ctx stmt).bind fun r => runStatements r.1 r.2 stmts

/-- Every statement is covered in the state it meets. -/
def CoveredRun (F : CStr → Bool) (ddl : Bool) : Db n → SessionContext → List ASTNode → Prop
  | _, _, [] => True
  | db, ctx, stmt :: stmts =>
      Covered F ddl db ctx stmt ∧
        ∀ r ∈ executeQuery db ctx stmt, CoveredRun F ddl r.1 r.2 stmts

instance decidableCoveredRun (F : CStr → Bool) (ddl : Bool) : (db : Db n) →
    (ctx : SessionContext) → (stmts : List ASTNode) → Decidable (CoveredRun F ddl db ctx stmts)
  | _, _, [] => isTrue trivial
  | _, _, _ :: stmts =>
      haveI : DecidablePred fun r : Db n × SessionContext => CoveredRun F ddl r.1 r.2 stmts :=
        fun r => decidableCoveredRun F ddl r.1 r.2 stmts
      inferInstanceAs (Decidable (_ ∧ _))

theorem runStatements_append (db : Db n) (ctx : SessionContext) (stmts stmts' : List ASTNode) :
    runStatements db ctx (stmts ++ stmts') =
      (runStatements db ctx stmts).bind fun r => runStatements r.1 r.2 stmts' := by
  induction stmts generalizing db ctx with
  | nil => rfl
  | cons stmt stmts ih =>
      rw [List.cons_append, runStatements, runStatements]
      cases executeQuery db ctx stmt with
      | none => rfl
      | some r => exact ih r.1 r.2

/-- Undoing the records of a covered run restores the entries, off `F`. -/
theorem coveredRun_reverts {F : CStr → Bool} {ddl : Bool} {stmts : List ASTNode}
    {db db' : Db n} {ctx ctx' : SessionContext} {txn : Txn}
    (ht : db.txnManager.activeTxn = some txn) (hcov : CoveredRun F ddl db ctx stmts)
    (hrun : runStatements db ctx stmts = some (db', ctx')) :
    ctx' = ctx ∧ ∃ txn' recs, db'.txnManager.activeTxn = some txn' ∧ Extends txn recs txn' ∧
      (∀ op ∈ recs, ddl = true ∨ op.isRowChange) ∧
      AgreeOff F (undoEntries ctx.currentDb recs db'.store.entries) db.store.entries := by
  induction stmts generalizing db ctx txn with
  | nil =>
      cases hrun
      exact ⟨rfl, txn, [], ht, Extends.refl txn, by simp, AgreeOff.refl F _⟩
  | cons stmt stmts ih =>
      obtain ⟨⟨db₁, ctx₁⟩, hexec, hrest⟩ := Option.bind_eq_some_iff.mp hrun
      have hactive : db.txnManager.activeTxn ≠ none := by
        rw [ht]
        exact Option.some_ne_none txn
      obtain ⟨rfl, hchain⟩ := covered_chain hactive hcov.1 hexec
      obtain ⟨txn₁, recs₁, ht₁, hext₁, hQ₁, hagree₁⟩ := chain_reverts hchain ht
      obtain ⟨rfl, txn', recs, ht', hext, hQ, hagree⟩ := ih ht₁ (hcov.2 _ hexec) hrest
      refine ⟨rfl, txn', recs ++ recs₁, ht', hext₁.trans hext, ?_, ?_⟩
      · intro op hop
        rcases List.mem_append.mp hop with hop | hop
        · exact hQ op hop
        · exact hQ₁ op hop
      · rw [undoEntries_append]
        exact (hagree.applyOps _).trans hagree₁

omit [NeZero n] in
/-- BEGIN without an open transaction starts an empty one in the session's database. -/
theorem executeBegin_idle {db : Db n} (ctx : SessionContext)
    (hidle : db.txnManager.currentTxn = none) :
    ∃ txn, (executeBegin db ctx).txnManager.activeTxn = some txn ∧
      txn.operations = [] ∧ txn.operationCount = 0 ∧ txn.savepoints = [] ∧
      txn.database = ctx.currentDb ∧ (executeBegin db ctx).store = db.store := by
  unfold executeBegin txnBegin
  rw [hidle]
  exact ⟨_, activeTxn_eq_some.mpr ⟨rfl, rfl⟩, rfl, rfl, rfl, rfl, rfl⟩

/-- ROLLBACK undoes every record of the open transaction. -/
theorem entries_executeRollback {db : Db n} {txn : Txn}
    (ht : db.txnManager.activeTxn = some txn) :
    (executeRollback db).store.entries =
      undoEntries txn.database txn.operations db.store.entries := by
  unfold executeRollback txnRollback
  rw [ht]
  exact entries_foldl_undo txn.database txn.operations db

/-- The server after a table `t` has been made and its row 1 inserted. -/
def tableDb : Db 1024 :=
  ((runStatements serverInit publicSession
    [.createTable (CStr.lit "t")
        [{ name := CStr.lit "id", type := CStr.lit "INT", isPk := true },
          { name := CStr.lit "v", type := CStr.lit "TEXT", isPk := false }],
      .insert (CStr.lit "t") [[CStr.lit "1", CStr.lit "a"]]]).map Prod.fst).getD serverInit

/-- `id = …` -/
def idIs (id : String) : Option ASTExpr :=
  some (.binary (.identifier (CStr.lit "id")) (CStr.lit "=") (.literal (CStr.lit id)))

/-- From BEGIN to ROLLBACK, covered statements leave every key as it was. -/
theorem rollback_restores (db db' : Db n) (ctx ctx' : SessionContext) (stmts : List ASTNode)
    (hidle : db.txnManager.currentTxn = none)
    (hcov : CoveredRun (fun _ => false) true (executeBegin db ctx) ctx stmts)
    (hrun : runStatements db ctx (.begin :: (stmts ++ [.rollback])) = some (db', ctx'))
    (key : CStr) : db'.get key = db.get key := by
  obtain ⟨txn, ht, hops, _, _, hdatabase, hstore⟩ := executeBegin_idle ctx hidle
  have hrun' : runStatements (executeBegin db ctx) ctx (stmts ++ [.rollback]) = some (db', ctx') :=
    hrun
  rw [runStatements_append] at hrun'
  obtain ⟨⟨db₁, ctx₁⟩, hstmts, hlast⟩ := Option.bind_eq_some_iff.mp hrun'
  obtain ⟨rfl, txn', recs, ht', hext, _, hagree⟩ := coveredRun_reverts ht hcov hstmts
  have hdb' : executeRollback db₁ = db' := by
    have hpair : some (executeRollback db₁, ctx₁) = some (db', ctx') := hlast
    cases hpair
    rfl
  have hentries : db'.store.entries =
      undoEntries ctx₁.currentDb recs db₁.store.entries := by
    rw [← hdb', entries_executeRollback ht', hext.operations, hops, List.append_nil,
      hext.database, hdatabase]
  rw [← hentries, hstore] at hagree
  exact hagree.lookup_eq rfl

theorem rollback_restores_rewritten_row :
    ∃ db' ctx', runStatements tableDb publicSession
        (.begin ::
          ([.update (CStr.lit "t") [(CStr.lit "v", CStr.lit "b")] (idIs "1"),
            .delete (CStr.lit "t") (idIs "1"),
            .insert (CStr.lit "t") [[CStr.lit "1", CStr.lit "c"], [CStr.lit "x", CStr.lit "d"]]] ++
            [.rollback])) = some (db', ctx') ∧
      ∀ key, db'.get key = tableDb.get key := by
  obtain ⟨⟨db', ctx'⟩, hrun⟩ := Option.isSome_iff_exists.mp
    (show (runStatements tableDb publicSession
        (.begin ::
          ([.update (CStr.lit "t") [(CStr.lit "v", CStr.lit "b")] (idIs "1"),
            .delete (CStr.lit "t") (idIs "1"),
            .insert (CStr.lit "t") [[CStr.lit "1", CStr.lit "c"], [CStr.lit "x", CStr.lit "d"]]] ++
            [.rollback]))).isSome = true by decide)
  exact ⟨db', ctx', hrun,
    rollback_restores tableDb db' publicSession ctx' _ (by decide) (by decide) hrun⟩

/-- A row inserted under the next number leaves the counter moved after ROLLBACK. -/
theorem rollback_keeps_moved_counter :
    (runStatements tableDb publicSession
        [.begin, .insert (CStr.lit "t") [[CStr.lit "2", CStr.lit "b"]], .rollback]).map
        (fun r => r.1.get (CStr.lit "DB:public:SEQ:t")) =
        some (some { data := CStr.intBytes 2, type := .row }) ∧
      tableDb.get (CStr.lit "DB:public:SEQ:t") =
        some { data := CStr.intBytes 1, type := .row } := by
  refine ⟨by decide, by decide⟩

end Transaction
end InventixDB
