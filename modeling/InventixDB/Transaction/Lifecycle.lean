import InventixDB.Transaction.Undo

/-!
# Lifecycle — what a statement can do to the open transaction

BEGIN opens a transaction, COMMIT and ROLLBACK end it, ROLLBACK TO cuts its undo log, and every
other statement pushes records on it, if it logs anything.  `executeQuery_txnStep` says so once
for all statements.
-/

namespace InventixDB
namespace Transaction

open Storage
open Executor

variable {n : Nat} [NeZero n]

/-- `recs` was pushed on the undo log, and counted. -/
structure Pushed (txn : Txn) (recs : List TxnOperation) (txn' : Txn) : Prop where
  state : txn'.state = txn.state
  operations : txn'.operations = recs ++ txn.operations
  operationCount : txn'.operationCount = recs.length + txn.operationCount

theorem Pushed.refl (txn : Txn) : Pushed txn [] txn where
  state := rfl
  operations := rfl
  operationCount := (Nat.zero_add _).symm

theorem Pushed.trans {txn txn' txn'' : Txn} {recs recs' : List TxnOperation}
    (h₁ : Pushed txn recs txn') (h₂ : Pushed txn' recs' txn'') :
    Pushed txn (recs' ++ recs) txn'' where
  state := h₂.state.trans h₁.state
  operations := by rw [h₂.operations, h₁.operations, List.append_assoc]
  operationCount := by
    rw [h₂.operationCount, h₁.operationCount, List.length_append, Nat.add_assoc]

/-- The newest `k` records were dropped from the undo log. -/
structure Cut (txn : Txn) (k : Nat) (txn' : Txn) : Prop where
  state : txn'.state = txn.state
  le : k ≤ txn.operations.length
  operations : txn'.operations = txn.operations.drop k
  operationCount : txn'.operationCount = txn.operationCount - k

/-- One statement, as the open transaction sees it. -/
inductive TxnStep (stmt : ASTNode) : Option Txn → Option Txn → Prop
  | idle (hstmt : stmt ≠ .begin) : TxnStep stmt none none
  | begun {txn : Txn} (hstmt : stmt = .begin) (hstate : txn.state = .active)
      (hoperations : txn.operations = []) (hcount : txn.operationCount = 0) :
      TxnStep stmt none (some txn)
  | kept {txn txn' : Txn} {recs : List TxnOperation} (hpushed : Pushed txn recs txn')
      (hlogged : recs ≠ [] → stmt.isLogged = true)
      (hopen : stmt = .commit ∨ stmt = .rollback → txn.state ≠ .active) :
      TxnStep stmt (some txn) (some txn')
  | cut {txn txn' : Txn} {k : Nat} {name : CStr} (hstmt : stmt = .rollbackTo name)
      (hcut : Cut txn k txn') : TxnStep stmt (some txn) (some txn')
  | ended {txn : Txn} (hstmt : stmt = .commit ∨ stmt = .rollback) (hstate : txn.state = .active) :
      TxnStep stmt (some txn) none

/-- A statement that leaves the open transaction alone. -/
theorem TxnStep.refl {stmt : ASTNode} (o : Option Txn) (hbegin : o = none → stmt ≠ .begin)
    (hopen : stmt = .commit ∨ stmt = .rollback → ∀ txn ∈ o, txn.state ≠ .active) :
    TxnStep stmt o o := by
  cases o with
  | none => exact .idle (hbegin rfl)
  | some txn =>
      exact .kept (Pushed.refl txn) (fun h => absurd rfl h) fun hstmt => hopen hstmt txn rfl

omit [NeZero n] in
theorem activeTxn_eq_none {manager : TransactionManager} (hnone : manager.activeTxn = none) :
    ∀ txn ∈ manager.currentTxn, txn.state ≠ .active := by
  intro txn ht hstate
  rw [activeTxn_eq_some.mpr ⟨ht, hstate⟩] at hnone
  cases hnone

omit [NeZero n] in
/-- Pushing one record. -/
theorem currentTxn_pushOperation (db : Db n) (op : TxnOperation) :
    (db.pushOperation op).txnManager.currentTxn = db.txnManager.currentTxn ∨
      ∃ txn txn', db.txnManager.currentTxn = some txn ∧
        (db.pushOperation op).txnManager.currentTxn = some txn' ∧ Pushed txn [op] txn' := by
  unfold Db.pushOperation
  cases ht : db.txnManager.activeTxn with
  | none => exact Or.inl rfl
  | some txn =>
      exact Or.inr ⟨txn, _, (activeTxn_eq_some.mp ht).1, rfl, rfl, rfl, Nat.add_comm _ _⟩

/-- A chain of writes pushes records on an open transaction, and neither opens nor ends one. -/
theorem chain_txnStep {stmt : ASTNode} {db db' : Db n} (hstmt : stmt.isTransactionCommand = false)
    (hc : Chain (fun _ w => stmt.isLogged = true ∨ w.record = none) db db') :
    TxnStep stmt db.txnManager.currentTxn db'.txnManager.currentTxn := by
  have hcommand : ¬ (stmt = .commit ∨ stmt = .rollback) := by
    rintro (rfl | rfl) <;> cases hstmt
  have hbegin : stmt ≠ .begin := by
    rintro rfl
    cases hstmt
  induction hc with
  | done db => exact TxnStep.refl _ (fun _ => hbegin) fun h => absurd h hcommand
  | aside out indexes _ ih => exact ih
  | @write db db' w hw _ ih =>
      unfold Write.apply at ih
      cases hrecord : w.record with
      | none =>
          rw [hrecord] at ih
          exact ih
      | some op =>
          rw [hrecord] at ih
          dsimp only at ih
          have hlogged : stmt.isLogged = true := by
            rw [hrecord] at hw
            simpa using hw
          rcases currentTxn_pushOperation (db.call w.call) op with heq | ⟨txn, txn₁, ht, ht₁, hpush⟩
          · rw [heq] at ih
            exact ih
          · have hbefore : db.txnManager.currentTxn = some txn := ht
            rw [ht₁] at ih
            rw [hbefore]
            generalize db'.txnManager.currentTxn = after at ih
            cases ih with
            | kept hpushed _ _ =>
                exact .kept (hpush.trans hpushed) (fun _ => hlogged) fun h => absurd h hcommand
            | cut hname _ =>
                subst hname
                cases hstmt
            | ended hend _ => exact absurd hend hcommand

/-- The partial undo loop drops records and counts them off. -/
theorem undoDownTo_cut (target : Nat) (ops : List TxnOperation) (count : Nat) (db : Db n) :
    ∃ k, k ≤ ops.length ∧ (undoDownTo target ops count db).1 = ops.drop k ∧
      (undoDownTo target ops count db).2.1 = count - k := by
  induction ops generalizing count db with
  | nil => exact ⟨0, le_rfl, rfl, rfl⟩
  | cons op ops ih =>
      unfold undoDownTo
      by_cases hgt : count > target
      · rw [if_pos hgt]
        obtain ⟨k, hk, hops, hcount⟩ := ih (count - 1) (db.undo (undoCallTo op))
        refine ⟨k + 1, Nat.succ_le_succ hk, hops, ?_⟩
        rw [hcount]
        omega
      · rw [if_neg hgt]
        exact ⟨0, Nat.zero_le _, rfl, rfl⟩

/-- What a statement can do to the open transaction. -/
theorem executeQuery_txnStep {db db' : Db n} {ctx ctx' : SessionContext} {stmt : ASTNode}
    (hexec : executeQuery db ctx stmt = some (db', ctx')) :
    TxnStep stmt db.txnManager.currentTxn db'.txnManager.currentTxn := by
  cases hstmt : stmt.isTransactionCommand with
  | false => exact chain_txnStep hstmt (executeQuery_chain hstmt hexec)
  | true =>
      cases stmt with
      | begin =>
          cases hexec
          unfold executeBegin txnBegin
          cases hcur : db.txnManager.currentTxn with
          | some txn =>
              dsimp only [Db.fprintf]
              rw [hcur]
              exact TxnStep.refl _ (by simp) (by simp)
          | none => exact .begun rfl rfl rfl rfl
      | commit =>
          cases hexec
          unfold executeCommit txnCommit
          cases ht : db.txnManager.activeTxn with
          | none => exact TxnStep.refl _ (by simp) fun _ => activeTxn_eq_none ht
          | some txn =>
              obtain ⟨hcur, hstate⟩ := activeTxn_eq_some.mp ht
              rw [hcur]
              exact .ended (Or.inl rfl) hstate
      | rollback =>
          cases hexec
          unfold executeRollback txnRollback
          cases ht : db.txnManager.activeTxn with
          | none => exact TxnStep.refl _ (by simp) fun _ => activeTxn_eq_none ht
          | some txn =>
              obtain ⟨hcur, hstate⟩ := activeTxn_eq_some.mp ht
              rw [hcur]
              exact .ended (Or.inr rfl) hstate
      | rollbackTo name =>
          cases hexec
          unfold executeRollbackTo txnRollbackToSavepoint
          cases ht : db.txnManager.activeTxn with
          | none => exact TxnStep.refl _ (by simp) (by simp)
          | some txn =>
              dsimp only
              cases txn.savepoints.find? fun sp => sp.name = name with
              | none => exact TxnStep.refl _ (by simp) (by simp)
              | some sp =>
                  obtain ⟨hcur, _⟩ := activeTxn_eq_some.mp ht
                  obtain ⟨k, hk, hops, hcount⟩ :=
                    undoDownTo_cut sp.operationCount txn.operations txn.operationCount db
                  rw [hcur]
                  exact .cut rfl ⟨rfl, hk, hops, hcount⟩
      | savepoint name =>
          cases hexec
          unfold executeSavepoint txnSavepoint
          cases ht : db.txnManager.activeTxn with
          | none => exact TxnStep.refl _ (by simp) (by simp)
          | some txn =>
              obtain ⟨hcur, _⟩ := activeTxn_eq_some.mp ht
              dsimp only
              by_cases hname : name.val = []
              · rw [if_pos hname]
                exact TxnStep.refl _ (by simp) (by simp)
              · rw [if_neg hname]
                by_cases hdup : (txn.savepoints.any fun sp => sp.name = name) = true
                · rw [if_pos hdup]
                  exact TxnStep.refl _ (by simp) (by simp)
                · rw [if_neg hdup, hcur]
                  exact .kept ⟨rfl, rfl, (Nat.zero_add _).symm⟩ (fun h => absurd rfl h) (by simp)
      | releaseSavepoint name =>
          cases hexec
          unfold executeReleaseSavepoint txnReleaseSavepoint
          cases ht : db.txnManager.activeTxn with
          | none => exact TxnStep.refl _ (by simp) (by simp)
          | some txn =>
              obtain ⟨hcur, _⟩ := activeTxn_eq_some.mp ht
              dsimp only
              by_cases hthere : (txn.savepoints.any fun sp => sp.name = name) = true
              · rw [if_pos hthere, hcur]
                exact .kept ⟨rfl, rfl, (Nat.zero_add _).symm⟩ (fun h => absurd rfl h) (by simp)
              · rw [if_neg hthere]
                exact TxnStep.refl _ (by simp) (by simp)
      | _ => cases hstmt

end Transaction
end InventixDB
