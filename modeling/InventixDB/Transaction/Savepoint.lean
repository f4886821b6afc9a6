import InventixDB.Transaction.Lifecycle
import InventixDB.Transaction.Rollback

/-!
# Savepoint — what ROLLBACK TO restores

A rollback to a savepoint has its own undo switch.  It agrees with the full one on rows only:
it looks for the schema of a created table under another key, and a dropped table is not put
back.  While the statements after a savepoint change rows only, nested savepoints included,
ROLLBACK TO restores every key but the sequence counters.
-/

namespace InventixDB
namespace Transaction

open Storage
open Executor
open Lib.OpenAddressing

variable {n : Nat} [NeZero n]

/-! ## The partial undo loop -/

/-- Both undo switches make the same call for a row change. -/
theorem undoCallTo_eq {op : TxnOperation} (hop : op.isRowChange) (database : CStr) :
    undoCallTo op = undoCall database op := by
  rcases hop with htype | htype | htype <;> simp [undoCallTo, undoCall, htype]

/-- With a right count, the loop undoes and drops the records above the target. -/
theorem undoDownTo_eq (target : Nat) (ops : List TxnOperation) (db : Db n) :
    undoDownTo target ops ops.length db =
      (ops.drop (ops.length - target), min ops.length target,
        (ops.take (ops.length - target)).foldl (fun db op => db.undo (undoCallTo op)) db) := by
  induction ops generalizing db with
  | nil => simp [undoDownTo]
  | cons op ops ih =>
      unfold undoDownTo
      by_cases hgt : (op :: ops).length > target
      · rw [if_pos hgt]
        rw [List.length_cons] at hgt ⊢
        have hsub : ops.length + 1 - target = (ops.length - target) + 1 := by omega
        rw [Nat.add_sub_cancel, ih, hsub, List.drop_succ_cons, List.take_succ_cons,
          List.foldl_cons]
        congr 2
        omega
      · rw [if_neg hgt]
        have hsub : (op :: ops).length - target = 0 := by omega
        rw [hsub, List.drop_zero, List.take_zero, List.foldl_nil]
        congr 2
        omega

theorem foldl_undo_rowChanges {recs : List TxnOperation} (hrecs : ∀ op ∈ recs, op.isRowChange)
    (database : CStr) (db : Db n) :
    recs.foldl (fun db op => db.undo (undoCallTo op)) db =
      recs.foldl (fun db op => db.undo (undoCall database op)) db := by
  induction recs generalizing db with
  | nil => rfl
  | cons op recs ih =>
      rw [List.foldl_cons, List.foldl_cons, undoCallTo_eq (hrecs op List.mem_cons_self) database]
      exact ih (fun op hop => hrecs op (List.mem_cons_of_mem _ hop)) _

@[simp]
theorem txnManager_foldl_undo (recs : List TxnOperation) (c : TxnOperation → Option KVCall)
    (db : Db n) : (recs.foldl (fun db op => db.undo (c op)) db).txnManager = db.txnManager := by
  induction recs generalizing db with
  | nil => rfl
  | cons op recs ih => rw [List.foldl_cons, ih, txnManager_undo]

/-! ## Counted undo logs -/

/-- The open transaction's counter is the length of its undo log. -/
def Counted (db : Db n) : Prop :=
  ∀ txn, db.txnManager.currentTxn = some txn → txn.operationCount = txn.operations.length

/-- Every statement keeps the counter right. -/
theorem Counted.executeQuery {db db' : Db n} {ctx ctx' : SessionContext} {stmt : ASTNode}
    (hcounted : Counted db) (hexec : executeQuery db ctx stmt = some (db', ctx')) :
    Counted db' := by
  intro txn' ht'
  have hstep := executeQuery_txnStep hexec
  rw [ht'] at hstep
  cases hcur : db.txnManager.currentTxn with
  | none =>
      rw [hcur] at hstep
      cases hstep with
      | begun _ _ hoperations hcount => rw [hoperations, hcount, List.length_nil]
  | some txn =>
      rw [hcur] at hstep
      have hcount := hcounted txn hcur
      cases hstep with
      | kept hpushed _ _ =>
          rw [hpushed.operationCount, hpushed.operations, List.length_append, hcount]
      | cut _ hcut => rw [hcut.operationCount, hcut.operations, List.length_drop, hcount]

theorem Counted.runStatements {db db' : Db n} {ctx ctx' : SessionContext} {stmts : List ASTNode}
    (hcounted : Counted db) (hrun : runStatements db ctx stmts = some (db', ctx')) :
    Counted db' := by
  induction stmts generalizing db ctx with
  | nil =>
      cases hrun
      exact hcounted
  | cons stmt stmts ih =>
      obtain ⟨⟨db₁, ctx₁⟩, hexec, hrest⟩ := Option.bind_eq_some_iff.mp hrun
      exact ih (hcounted.executeQuery hexec) hrest

/-! ## Between SAVEPOINT and ROLLBACK TO -/

/-- The keys of a database's sequence counters. -/
def isCounterKey (database key : CStr) : Bool :=
  CStr.startsWith (CStr.lit "DB:" ++ database ++ CStr.lit ":SEQ:") key

/-- The open transaction since SAVEPOINT `s`: `recs` was logged on top of `base`, the savepoints
of `newer` were set on top of `s`, and undoing `recs` gives `entries` back, off the counters. -/
structure Since (database s : CStr) (older : List CStr) (base : List TxnOperation)
    (entries : Table CStr Value n) (db : Db n) (txn : Txn) (recs : List TxnOperation)
    (newer rest : List Savepoint) : Prop where
  active : db.txnManager.activeTxn = some txn
  operations : txn.operations = recs ++ base
  operationCount : txn.operationCount = recs.length + base.length
  savepoints : txn.savepoints =
    newer ++ { name := s, operationCount := base.length } :: rest
  newer_ne : ∀ sp ∈ newer, sp.name ≠ s
  newer_count : ∀ sp ∈ newer, base.length ≤ sp.operationCount
  rest_older : ∀ sp ∈ rest, sp.name ∈ older
  rowChanges : ∀ op ∈ recs, op.isRowChange
  reverts : AgreeOff (isCounterKey database) (undoEntries database recs db.store.entries) entries

/-- The savepoints of the open transaction. -/
def savepointNames (db : Db n) : List CStr :=
  match db.txnManager.activeTxn with
  | some txn => txn.savepoints.map Savepoint.name
  | none => []

/-- Covered by ROLLBACK TO `s`: row changes that are covered by a full rollback as well, and
savepoint commands that leave `s` in place.  `older` names the savepoints set before `s`. -/
def CoveredAfter (s : CStr) (older : List CStr) (db : Db n) (ctx : SessionContext) :
    ASTNode → Prop
  | .savepoint _ => True
  | .releaseSavepoint name => name ≠ s
  | .rollbackTo name => name ∉ older
  | stmt => Covered (isCounterKey ctx.currentDb) false db ctx stmt

instance (s : CStr) (older : List CStr) (db : Db n) (ctx : SessionContext) (stmt : ASTNode) :
    Decidable (CoveredAfter s older db ctx stmt) :=
  let rows (row : ASTNode) : Decidable (Covered (isCounterKey ctx.currentDb) false db ctx row) :=
    inferInstance
  match stmt with
  | .savepoint _ => instDecidableTrue
  | .releaseSavepoint name => inferInstanceAs (Decidable (name ≠ s))
  | .rollbackTo name => inferInstanceAs (Decidable (name ∉ older))
  | .createTable t cs => rows (.createTable t cs)
  | .insert t rs => rows (.insert t rs)
  | .delete t w => rows (.delete t w)
  | .update t sets w => rows (.update t sets w)
  | .dropTable t => rows (.dropTable t)
  | .docInsert c b => rows (.docInsert c b)
  | .docRemove c d => rows (.docRemove c d)
  | .checkpoint => rows .checkpoint
  | .createIndex t c => rows (.createIndex t c)
  | .createUser u p => rows (.createUser u p)
  | .createDb d => rows (.createDb d)
  | .useDb d => rows (.useDb d)
  | .dropDb d => rows (.dropDb d)
  | .begin => rows .begin
  | .commit => rows .commit
  | .rollback => rows .rollback
  | .foreign calls d => rows (.foreign calls d)

/-- Every statement after SAVEPOINT `s` is covered in the state it meets. -/
def CoveredAfterRun (s : CStr) (older : List CStr) :
    Db n → SessionContext → List ASTNode → Prop
  | _, _, [] => True
  | db, ctx, stmt :: stmts =>
      CoveredAfter s older db ctx stmt ∧
        ∀ r ∈ executeQuery db ctx stmt, CoveredAfterRun s older r.1 r.2 stmts

instance decidableCoveredAfterRun (s : CStr) (older : List CStr) : (db : Db n) →
    (ctx : SessionContext) → (stmts : List ASTNode) →
      Decidable (CoveredAfterRun s older db ctx stmts)
  | _, _, [] => isTrue trivial
  | _, _, _ :: stmts =>
      haveI : DecidablePred fun r : Db n × SessionContext =>
          CoveredAfterRun s older r.1 r.2 stmts :=
        fun r => decidableCoveredAfterRun s older r.1 r.2 stmts
      inferInstanceAs (Decidable (_ ∧ _))

omit [NeZero n] in
/-- Setting a savepoint that is accepted. -/
theorem txnSavepoint_eq_some {db db' : Db n} {name : CStr}
    (hsp : txnSavepoint db name = some db') :
    ∃ txn, db.txnManager.activeTxn = some txn ∧ (∀ sp ∈ txn.savepoints, sp.name ≠ name) ∧
      db' = db.setTxn
        { txn with
          savepoints :=
            { name := name, operationCount := txn.operationCount } :: txn.savepoints } := by
  unfold txnSavepoint at hsp
  cases ht : db.txnManager.activeTxn with
  | none =>
      rw [ht] at hsp
      cases hsp
  | some txn =>
      rw [ht] at hsp
      dsimp only at hsp
      by_cases hname : name.val = []
      · rw [if_pos hname] at hsp
        cases hsp
      · rw [if_neg hname] at hsp
        by_cases hdup : (txn.savepoints.any fun sp => sp.name = name) = true
        · rw [if_pos hdup] at hsp
          cases hsp
        · rw [if_neg hdup] at hsp
          cases hsp
          refine ⟨txn, rfl, ?_, rfl⟩
          simpa using hdup

omit [NeZero n] in
theorem activeTxn_setTxn {db : Db n} {txn : Txn} (hactive : txn.state = .active) :
    (db.setTxn txn).txnManager.activeTxn = some txn := by
  exact activeTxn_eq_some.mpr ⟨rfl, hactive⟩

/-- Rolling back to a savepoint that is there, with a right count. -/
theorem txnRollbackToSavepoint_eq {db : Db n} {txn : Txn} {name : CStr} {sp : Savepoint}
    (ht : db.txnManager.activeTxn = some txn)
    (hcount : txn.operationCount = txn.operations.length)
    (hsp : (txn.savepoints.find? fun sp => sp.name = name) = some sp) :
    txnRollbackToSavepoint db name =
      some (((txn.operations.take (txn.operations.length - sp.operationCount)).foldl
          (fun db op => db.undo (undoCallTo op)) db).setTxn
        { txn with
          operations := txn.operations.drop (txn.operations.length - sp.operationCount)
          operationCount := min txn.operations.length sp.operationCount
          savepoints := txn.savepoints.dropWhile fun sp => sp.name ≠ name }) := by
  unfold txnRollbackToSavepoint
  rw [ht]
  dsimp only
  rw [hsp]
  dsimp only
  rw [hcount, undoDownTo_eq]

section Since

variable {database s : CStr} {older : List CStr} {base : List TxnOperation}
  {entries : Table CStr Value n} {db : Db n} {txn : Txn} {recs : List TxnOperation}
  {newer rest : List Savepoint}

/-- A statement whose records take its writes back leaves the savepoint in place. -/
theorem Since.extends (hs : Since database s older base entries db txn recs newer rest)
    {db' : Db n} {txn' : Txn} {recs' : List TxnOperation}
    (ht : db'.txnManager.activeTxn = some txn') (hext : Extends txn recs' txn')
    (hrows : ∀ op ∈ recs', op.isRowChange)
    (hagree : AgreeOff (isCounterKey database) (undoEntries database recs' db'.store.entries)
      db.store.entries) :
    Since database s older base entries db' txn' (recs' ++ recs) newer rest where
  active := ht
  operations := by rw [hext.operations, hs.operations, List.append_assoc]
  operationCount := by
    rw [hext.operationCount, hs.operationCount, List.length_append, Nat.add_assoc]
  savepoints := hext.savepoints.trans hs.savepoints
  newer_ne := hs.newer_ne
  newer_count := hs.newer_count
  rest_older := hs.rest_older
  rowChanges := by
    intro op hop
    rcases List.mem_append.mp hop with hop | hop
    · exact hrows op hop
    · exact hs.rowChanges op hop
  reverts := by
    rw [undoEntries_append]
    exact (hagree.applyOps _).trans hs.reverts

/-- SAVEPOINT sets one more savepoint on top, or none. -/
theorem Since.executeSavepoint (hs : Since database s older base entries db txn recs newer rest)
    (name : CStr) : ∃ txn' newer',
      Since database s older base entries (executeSavepoint db name) txn' recs newer' rest := by
  unfold Executor.executeSavepoint
  cases hsp : txnSavepoint db name with
  | none => exact ⟨txn, newer, { hs with }⟩
  | some db' =>
      obtain ⟨txn', ht, hfresh, rfl⟩ := txnSavepoint_eq_some hsp
      rw [hs.active, Option.some_inj] at ht
      subst ht
      have hname : name ≠ s := by
        have hne := hfresh { name := s, operationCount := base.length } (by
          rw [hs.savepoints]
          exact List.mem_append_right _ List.mem_cons_self)
        exact fun heq => hne heq.symm
      refine ⟨_, { name := name, operationCount := txn.operationCount } :: newer,
        { hs with
          active := activeTxn_setTxn (activeTxn_eq_some.mp hs.active).2
          savepoints := by rw [hs.savepoints, List.cons_append]
          newer_ne := ?_
          newer_count := ?_ }⟩
      · intro sp hmem
        rcases List.mem_cons.mp hmem with rfl | hmem
        · exact hname
        · exact hs.newer_ne sp hmem
      · intro sp hmem
        rcases List.mem_cons.mp hmem with rfl | hmem
        · rw [hs.operationCount]
          exact Nat.le_add_left _ _
        · exact hs.newer_count sp hmem

/-- RELEASE of another savepoint leaves `s` in place. -/
theorem Since.executeReleaseSavepoint
    (hs : Since database s older base entries db txn recs newer rest) {name : CStr}
    (hname : name ≠ s) : ∃ txn' newer' rest',
      Since database s older base entries (executeReleaseSavepoint db name) txn' recs newer'
        rest' := by
  unfold Executor.executeReleaseSavepoint txnReleaseSavepoint
  rw [hs.active]
  dsimp only
  by_cases hthere : (txn.savepoints.any fun sp => sp.name = name) = true
  · rw [if_pos hthere]
    have hactive : (db.setTxn
        { txn with
          savepoints := txn.savepoints.eraseP fun sp => sp.name = name }).txnManager.activeTxn =
        some { txn with savepoints := txn.savepoints.eraseP fun sp => sp.name = name } :=
      activeTxn_setTxn (activeTxn_eq_some.mp hs.active).2
    by_cases hnewer : ∃ sp ∈ newer, sp.name = name
    · obtain ⟨sp, hmem, hsp⟩ := hnewer
      refine ⟨_, newer.eraseP fun sp => sp.name = name, rest,
        { hs with
          active := hactive
          savepoints := ?_
          newer_ne := fun sp hmem => hs.newer_ne sp (List.mem_of_mem_eraseP hmem)
          newer_count := fun sp hmem => hs.newer_count sp (List.mem_of_mem_eraseP hmem) }⟩
      rw [hs.savepoints, List.eraseP_append_left (by simpa using hsp) _ hmem]
    · refine ⟨_, newer, rest.eraseP fun sp => sp.name = name,
        { hs with
          active := hactive
          savepoints := ?_
          rest_older := fun sp hmem => hs.rest_older sp (List.mem_of_mem_eraseP hmem) }⟩
      rw [hs.savepoints, List.eraseP_append_right _ (by simpa using hnewer),
        List.eraseP_cons_of_neg (by simpa using Ne.symm hname)]
  · rw [if_neg hthere]
    exact ⟨txn, newer, rest, { hs with }⟩

/-- The savepoint a ROLLBACK TO finds when it does not look among the older ones, and the
savepoints it keeps. -/
theorem Since.find_savepoint (hs : Since database s older base entries db txn recs newer rest)
    {name : CStr} (hname : name ∉ older) {sp : Savepoint}
    (hfind : (txn.savepoints.find? fun sp => sp.name = name) = some sp) :
    ∃ newer', (∀ sp' ∈ newer', sp' ∈ newer) ∧
      (sp ∈ newer ∨ sp = { name := s, operationCount := base.length }) ∧
      (txn.savepoints.dropWhile fun sp => sp.name ≠ name) =
        newer' ++ { name := s, operationCount := base.length } :: rest := by
  obtain ⟨hsp, before, after, hsplit, hbefore⟩ := List.find?_eq_some_iff_append.mp hfind
  have hdrop : (txn.savepoints.dropWhile fun sp => sp.name ≠ name) = sp :: after := by
    rw [hsplit, List.dropWhile_append_of_pos (by simpa using hbefore),
      List.dropWhile_cons_of_neg (by simpa using hsp)]
  rw [hdrop]
  rw [hs.savepoints] at hsplit
  rcases List.append_eq_append_iff.mp hsplit with ⟨beyond, rfl, hrest⟩ | ⟨kept, rfl, hkept⟩
  · cases beyond with
    | nil =>
        cases hrest
        exact ⟨[], by simp, Or.inr rfl, rfl⟩
    | cons sp' beyond =>
        -- The name would be that of an older savepoint.
        rw [List.cons_append] at hrest
        cases hrest
        refine absurd (hs.rest_older sp (by simp)) ?_
        rwa [show sp.name = name by simpa using hsp]
  · cases kept with
    | nil =>
        cases hkept
        exact ⟨[], by simp, Or.inr rfl, rfl⟩
    | cons sp' kept =>
        cases hkept
        refine ⟨sp :: kept, ?_, Or.inl (by simp), rfl⟩
        intro sp' hmem
        exact List.mem_append_right _ hmem

/-- ROLLBACK TO undoes the records above its savepoint. -/
theorem Since.executeRollbackTo (hs : Since database s older base entries db txn recs newer rest)
    {name : CStr} (hname : name ∉ older) : ∃ txn' undone recs' newer', recs = undone ++ recs' ∧
      Since database s older base entries (executeRollbackTo db name) txn' recs' newer' rest ∧
      (executeRollbackTo db name).store =
        (undone.foldl (fun db op => db.undo (undoCall txn.database op)) db).store ∧
      (name = s → recs' = []) := by
  have hcount : txn.operationCount = txn.operations.length := by
    rw [hs.operationCount, hs.operations, List.length_append]
  cases hfind : txn.savepoints.find? fun sp => sp.name = name with
  | none =>
      have hnone : txnRollbackToSavepoint db name = none := by
        unfold txnRollbackToSavepoint
        rw [hs.active]
        dsimp only
        rw [hfind]
      unfold Executor.executeRollbackTo
      rw [hnone]
      refine ⟨txn, [], recs, newer, rfl, { hs with }, rfl, ?_⟩
      rintro rfl
      have hthere := List.find?_eq_none.mp hfind { name := name, operationCount := base.length } (by
        rw [hs.savepoints]
        exact List.mem_append_right _ List.mem_cons_self)
      exact absurd (decide_eq_true rfl) hthere
  | some sp =>
      obtain ⟨newer', hsub, hsp, hkept⟩ := hs.find_savepoint hname hfind
      have hbase : base.length ≤ sp.operationCount := by
        rcases hsp with hmem | rfl
        · exact hs.newer_count sp hmem
        · exact le_rfl
      have hlen : txn.operations.length = recs.length + base.length := by
        rw [hs.operations, List.length_append]
      unfold Executor.executeRollbackTo
      rw [txnRollbackToSavepoint_eq hs.active hcount hfind]
      -- No more than `recs` is undone.
      have hk : txn.operations.length - sp.operationCount ≤ recs.length := by omega
      generalize hkeep : txn.operations.length - sp.operationCount = k at hk ⊢
      have htake : txn.operations.take k = recs.take k := by
        rw [hs.operations, List.take_append_of_le_length hk]
      have hundone : ∀ op ∈ recs.take k, op.isRowChange :=
        fun op hop => hs.rowChanges op (List.mem_of_mem_take hop)
      refine ⟨_, recs.take k, recs.drop k, newer', (List.take_append_drop k recs).symm,
        { active := activeTxn_setTxn (activeTxn_eq_some.mp hs.active).2
          operations := by
            rw [hs.operations, List.drop_append_of_le_length hk]
          operationCount := ?_
          savepoints := hkept
          newer_ne := fun sp' hmem => hs.newer_ne sp' (hsub sp' hmem)
          newer_count := fun sp' hmem => hs.newer_count sp' (hsub sp' hmem)
          rest_older := hs.rest_older
          rowChanges := fun op hop => hs.rowChanges op (List.mem_of_mem_drop hop)
          reverts := ?_ }, ?_, ?_⟩
      · dsimp only
        rw [List.length_drop, hlen]
        omega
      · rw [htake, foldl_undo_rowChanges hundone database]
        change AgreeOff _ (undoEntries database (recs.drop k)
          ((recs.take k).foldl (fun db op => db.undo (undoCall database op)) db).store.entries) _
        rw [entries_foldl_undo, ← undoEntries_append, List.take_append_drop]
        exact hs.reverts
      · rw [htake, foldl_undo_rowChanges hundone txn.database]
        rfl
      · rintro rfl
        have hself : sp.operationCount = base.length := by
          rcases hsp with hmem | rfl
          · refine absurd ?_ (hs.newer_ne sp hmem)
            simpa using List.find?_some hfind
          · rfl
        exact List.drop_of_length_le (by omega)

/-- Every covered statement leaves the savepoint in place. -/
theorem Since.executeQuery {ctx ctx' : SessionContext} {db' : Db n} {stmt : ASTNode}
    (hs : Since ctx.currentDb s older base entries db txn recs newer rest)
    (hcov : CoveredAfter s older db ctx stmt)
    (hexec : executeQuery db ctx stmt = some (db', ctx')) :
    ctx' = ctx ∧ ∃ txn' recs' newer' rest',
      Since ctx.currentDb s older base entries db' txn' recs' newer' rest' := by
  have hrows : Covered (isCounterKey ctx.currentDb) false db ctx stmt →
      ctx' = ctx ∧ ∃ txn' recs' newer' rest',
        Since ctx.currentDb s older base entries db' txn' recs' newer' rest' := by
    intro hcovered
    have hactive : db.txnManager.activeTxn ≠ none := by
      rw [hs.active]
      exact Option.some_ne_none txn
    obtain ⟨rfl, hchain⟩ := covered_chain hactive hcovered hexec
    obtain ⟨txn', recs', ht', hext, hQ, hagree⟩ := chain_reverts hchain hs.active
    refine ⟨rfl, txn', recs' ++ recs, newer, rest, hs.extends ht' hext ?_ hagree⟩
    intro op hop
    exact (hQ op hop).resolve_left Bool.false_ne_true
  cases stmt with
  | savepoint name =>
      cases hexec
      obtain ⟨txn', newer', hs'⟩ := hs.executeSavepoint name
      exact ⟨rfl, txn', recs, newer', rest, hs'⟩
  | releaseSavepoint name =>
      cases hexec
      obtain ⟨txn', newer', rest', hs'⟩ := hs.executeReleaseSavepoint hcov
      exact ⟨rfl, txn', recs, newer', rest', hs'⟩
  | rollbackTo name =>
      cases hexec
      obtain ⟨txn', _, recs', newer', _, hs', _⟩ := hs.executeRollbackTo hcov
      exact ⟨rfl, txn', recs', newer', rest, hs'⟩
  | insert tableName rows => exact hrows hcov
  | delete tableName whereClause => exact hrows hcov
  | update tableName sets whereClause => exact hrows hcov
  | createTable tableName columns => exact hrows hcov
  | dropTable tableName => exact hrows hcov
  | docRemove collection docId => exact hrows hcov
  | _ => exact hcov.elim

theorem Since.runStatements {ctx ctx' : SessionContext} {db' : Db n} {stmts : List ASTNode}
    (hs : Since ctx.currentDb s older base entries db txn recs newer rest)
    (hcov : CoveredAfterRun s older db ctx stmts)
    (hrun : runStatements db ctx stmts = some (db', ctx')) :
    ∃ txn' recs' newer' rest',
      Since ctx.currentDb s older base entries db' txn' recs' newer' rest' := by
  induction stmts generalizing db ctx txn recs newer rest with
  | nil =>
      cases hrun
      exact ⟨txn, recs, newer, rest, hs⟩
  | cons stmt stmts ih =>
      obtain ⟨⟨db₁, ctx₁⟩, hexec, hrest⟩ := Option.bind_eq_some_iff.mp hrun
      obtain ⟨rfl, _, _, _, _, hs₁⟩ := hs.executeQuery hcov.1 hexec
      exact ih hs₁ (hcov.2 _ hexec) hrest

end Since

/-- SAVEPOINT `s`, when it is accepted, opens the span. -/
theorem since_executeSavepoint {db : Db n} (hcounted : Counted db) {s : CStr} (database : CStr)
    (hsave : (txnSavepoint db s).isSome = true) :
    ∃ txn txn' rest, db.txnManager.activeTxn = some txn ∧
      (executeSavepoint db s).store = db.store ∧
      Since database s (savepointNames db) txn.operations db.store.entries
        (executeSavepoint db s) txn' [] [] rest := by
  obtain ⟨db', hdb'⟩ := Option.isSome_iff_exists.mp hsave
  obtain ⟨txn, ht, _, rfl⟩ := txnSavepoint_eq_some hdb'
  have hcount := hcounted txn (activeTxn_eq_some.mp ht).1
  unfold Executor.executeSavepoint
  rw [hdb']
  refine ⟨txn, _, txn.savepoints, ht, rfl,
    { active := activeTxn_setTxn (activeTxn_eq_some.mp ht).2
      operations := rfl
      operationCount := by simpa using hcount
      savepoints := by rw [List.nil_append, hcount]
      newer_ne := by simp
      newer_count := by simp
      rest_older := ?_
      rowChanges := by simp
      reverts := AgreeOff.refl _ _ }⟩
  intro sp hmem
  unfold savepointNames
  rw [ht]
  exact List.mem_map_of_mem hmem

/-! ## What comes back -/

/-- Keys of a database that go on with another letter than `S` are not counter keys. -/
theorem isCounterKey_eq_false {database key : CStr} {c : UInt8} (cs : List UInt8)
    (hkey : key.val = (CStr.lit "DB:" ++ database).val ++ 58 :: c :: cs) (hc : c ≠ 83) :
    isCounterKey database key = false := by
  have hseq : (CStr.lit ":SEQ:").val = 58 :: 83 :: [69, 81, 58] := by decide
  unfold isCounterKey CStr.startsWith
  rw [← Bool.not_eq_true, List.isPrefixOf_iff_prefix, hkey, CStr.val_append, hseq,
    List.prefix_append_right_inj]
  simp [Ne.symm hc]

/-- Neither rows nor schemas of a database are stored under its counter keys. -/
theorem isCounterKey_tableKey {database tableName pk key : CStr}
    (hkey : sysGenerateKeyTable database tableName pk = some key) :
    isCounterKey database key = false := by
  obtain ⟨rfl, _⟩ := CStr.sprintf_eq_some hkey
  have htbl : (CStr.lit ":TBL:").val = 58 :: 84 :: [66, 76, 58] := by decide
  refine isCounterKey_eq_false (c := 84)
    ([66, 76, 58] ++ (tableName ++ CStr.lit ":" ++ pk).val) ?_ (by decide)
  simp [CStr.val_append, htbl]

theorem isCounterKey_schemaKey {database tableName key : CStr}
    (hkey : sysGenerateKeySchema database tableName = some key) :
    isCounterKey database key = false := by
  obtain ⟨rfl, _⟩ := CStr.sprintf_eq_some hkey
  have hmeta : (CStr.lit ":META:TBL:").val = 58 :: 77 :: [69, 84, 65, 58, 84, 66, 76, 58] := by
    decide
  refine isCounterKey_eq_false (c := 77)
    ([69, 84, 65, 58, 84, 66, 76, 58] ++ tableName.val) ?_ (by decide)
  simp [CStr.val_append, hmeta]

/-- After covered statements, ROLLBACK TO `s` gives every key but the counters its value of
SAVEPOINT `s` back, by the calls a full rollback makes for the records logged since, and cuts
the undo log where it was. -/
theorem rollbackTo_restores (db₀ db before : Db n) (ctx₀ ctx ctx' : SessionContext)
    (pre mid : List ASTNode) (s : CStr) (hidle : db₀.txnManager.currentTxn = none)
    (hpre : runStatements db₀ ctx₀ (.begin :: pre) = some (db, ctx))
    (hsave : (txnSavepoint db s).isSome = true)
    (hcov : CoveredAfterRun s (savepointNames db) (executeSavepoint db s) ctx mid)
    (hmid : runStatements (executeSavepoint db s) ctx mid = some (before, ctx')) :
    (∀ key, isCounterKey ctx.currentDb key = false →
        (executeRollbackTo before s).get key = db.get key) ∧
      (∀ tableName key, (sysGenerateKeySchema ctx.currentDb tableName = some key ∨
          ∃ pk, sysGenerateKeyTable ctx.currentDb tableName pk = some key) →
        (executeRollbackTo before s).get key = db.get key) ∧
      ∃ base top kept recs, db.txnManager.activeTxn = some base ∧
        before.txnManager.activeTxn = some top ∧
        (executeRollbackTo before s).txnManager.activeTxn = some kept ∧
        top.operations = recs ++ base.operations ∧ kept.operations = base.operations ∧
        (executeRollbackTo before s).store =
          (recs.foldl (fun db op => db.undo (undoCall top.database op)) before).store := by
  have hcounted₀ : Counted db₀ := by
    intro txn ht
    rw [hidle] at ht
    cases ht
  have hcounted : Counted db := hcounted₀.runStatements hpre
  obtain ⟨base, _, rest, hbase, _, hs⟩ := since_executeSavepoint hcounted ctx.currentDb hsave
  have hself : s ∉ savepointNames db := by
    obtain ⟨db', hdb'⟩ := Option.isSome_iff_exists.mp hsave
    obtain ⟨txn, ht, hfresh, _⟩ := txnSavepoint_eq_some hdb'
    unfold savepointNames
    rw [ht]
    simpa using hfresh
  obtain ⟨top, recs, newer, rest', htop⟩ := hs.runStatements hcov hmid
  obtain ⟨kept, undone, recs', newer', hrecs, hkept, hstore, hnil⟩ := htop.executeRollbackTo hself
  have hrest : recs' = [] := hnil rfl
  subst hrest
  rw [List.append_nil] at hrecs
  subst hrecs
  have hkeys : ∀ key, isCounterKey ctx.currentDb key = false →
      (executeRollbackTo before s).get key = db.get key :=
    fun key hkey => hkept.reverts.lookup_eq hkey
  refine ⟨hkeys, ?_, base, top, kept, recs, hbase, htop.active, hkept.active, htop.operations,
    hkept.operations, hstore⟩
  rintro tableName key (hkey | ⟨pk, hkey⟩)
  · exact hkeys key (isCounterKey_schemaKey hkey)
  · exact hkeys key (isCounterKey_tableKey hkey)

theorem rollbackTo_restores_nested :
    ∃ db before ctx ctx', runStatements tableDb publicSession
        (.begin :: [.insert (CStr.lit "t") [[CStr.lit "2", CStr.lit "b"]]]) = some (db, ctx) ∧
      runStatements (executeSavepoint db (CStr.lit "s")) ctx
        [.insert (CStr.lit "t") [[CStr.lit "AUTO", CStr.lit "c"]], .savepoint (CStr.lit "r"),
          .delete (CStr.lit "t") (idIs "1"), .rollbackTo (CStr.lit "r"),
          .update (CStr.lit "t") [(CStr.lit "v", CStr.lit "d")] (idIs "2")] =
          some (before, ctx') ∧
      ∀ key, isCounterKey ctx.currentDb key = false →
        (executeRollbackTo before (CStr.lit "s")).get key = db.get key := by
  obtain ⟨⟨db, ctx⟩, hpre, hr⟩ := (Option.any_eq_true _ _).mp
    (show (runStatements tableDb publicSession
        (.begin :: [.insert (CStr.lit "t") [[CStr.lit "2", CStr.lit "b"]]])).any (fun r =>
      (txnSavepoint r.1 (CStr.lit "s")).isSome &&
      decide (CoveredAfterRun (CStr.lit "s") (savepointNames r.1)
        (executeSavepoint r.1 (CStr.lit "s")) r.2
        [.insert (CStr.lit "t") [[CStr.lit "AUTO", CStr.lit "c"]], .savepoint (CStr.lit "r"),
          .delete (CStr.lit "t") (idIs "1"), .rollbackTo (CStr.lit "r"),
          .update (CStr.lit "t") [(CStr.lit "v", CStr.lit "d")] (idIs "2")]) &&
      (runStatements (executeSavepoint r.1 (CStr.lit "s")) r.2
        [.insert (CStr.lit "t") [[CStr.lit "AUTO", CStr.lit "c"]], .savepoint (CStr.lit "r"),
          .delete (CStr.lit "t") (idIs "1"), .rollbackTo (CStr.lit "r"),
          .update (CStr.lit "t") [(CStr.lit "v", CStr.lit "d")] (idIs "2")]).isSome) = true by
      decide +kernel)
  rw [Bool.and_eq_true, Bool.and_eq_true, decide_eq_true_iff] at hr
  obtain ⟨⟨hsave, hcov⟩, hrun⟩ := hr
  obtain ⟨⟨before, ctx'⟩, hmid⟩ := Option.isSome_iff_exists.mp hrun
  exact ⟨db, before, ctx, ctx', hpre, hmid,
    (rollbackTo_restores tableDb db before publicSession ctx ctx' _ _ _ (by decide)
      hpre hsave hcov hmid).1⟩

/-- The schema of a table created after the savepoint stays, and that of a dropped one stays
away. -/
theorem rollbackTo_keeps_created_table :
    (runStatements tableDb publicSession
        [.begin, .savepoint (CStr.lit "s"), .createTable (CStr.lit "u") [],
          .rollbackTo (CStr.lit "s")]).map
        (fun r => (r.1.get (CStr.lit "DB:public:META:TBL:u")).isSome) = some true ∧
      tableDb.get (CStr.lit "DB:public:META:TBL:u") = none ∧
      (runStatements tableDb publicSession
        [.begin, .savepoint (CStr.lit "s"), .dropTable (CStr.lit "t"),
          .rollbackTo (CStr.lit "s")]).map
        (fun r => r.1.get (CStr.lit "DB:public:META:TBL:t")) = some none ∧
      (tableDb.get (CStr.lit "DB:public:META:TBL:t")).isSome = true := by
  refine ⟨by decide +kernel, by decide, by decide +kernel, by decide⟩

end Transaction
end InventixDB
