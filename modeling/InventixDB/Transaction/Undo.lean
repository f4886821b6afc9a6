import InventixDB.Executor.Writes
import InventixDB.Lib.ProbedFrame

/-!
# Undo — writes that their undo records take back

Undoing is a run of calls on the table, newest record first (`undoEntries`).  A write is
`Reversible` if undoing its own record right after it gives the old table back, slot for slot.
Slots matter here, not only values: that is why the result needs no invariant of the table and
holds even where a delete cuts a probe chain.  `F` is a set of keys that may keep their new
values; for a full rollback it is empty.
-/

namespace InventixDB
namespace Transaction

open Storage
open Executor
open Lib.OpenAddressing

variable {n : Nat} [NeZero n]

/-! ## Undoing a list of records -/

/-- The entries after undoing `recs` in order. -/
def undoEntries (database : CStr) (recs : List TxnOperation) (entries : Table CStr Value n) :
    Table CStr Value n :=
  applyOps CStr.slot entries (opsOf (recs.filterMap (undoCall database)))

theorem undoEntries_append (database : CStr) (recs recs' : List TxnOperation)
    (entries : Table CStr Value n) :
    undoEntries database (recs ++ recs') entries =
      undoEntries database recs' (undoEntries database recs entries) := by
  unfold undoEntries
  rw [List.filterMap_append, opsOf_append, applyOps_append]

theorem undoEntries_cons (database : CStr) (op : TxnOperation) (recs : List TxnOperation)
    (entries : Table CStr Value n) :
    undoEntries database (op :: recs) entries =
      undoEntries database recs (undoEntries database [op] entries) := by
  exact undoEntries_append database [op] recs entries

theorem entries_undo (db : Db n) (c : Option KVCall) :
    (db.undo c).store.entries = applyOps CStr.slot db.store.entries (opsOf c.toList) := by
  cases c with
  | none => rfl
  | some c => exact entries_exec db.store c

@[simp]
theorem txnManager_undo (db : Db n) (c : Option KVCall) :
    (db.undo c).txnManager = db.txnManager := by
  cases c <;> rfl

/-- One step of the rollback loop on the entries. -/
theorem entries_undo_undoCall (db : Db n) (database : CStr) (op : TxnOperation) :
    (db.undo (undoCall database op)).store.entries =
      undoEntries database [op] db.store.entries := by
  have hone : [op].filterMap (undoCall database) = (undoCall database op).toList := by
    cases hc : undoCall database op <;> simp [hc]
  rw [entries_undo, undoEntries, hone]

/-- The loop of a full rollback. -/
theorem entries_foldl_undo (database : CStr) (recs : List TxnOperation) (db : Db n) :
    (recs.foldl (fun db op => db.undo (undoCall database op)) db).store.entries =
      undoEntries database recs db.store.entries := by
  induction recs generalizing db with
  | nil => rfl
  | cons op recs ih =>
      rw [List.foldl_cons, ih, entries_undo_undoCall, ← undoEntries_cons]

/-! ## The transaction a chain of writes leaves -/

/-- `txn'` is `txn` with `recs` pushed on its undo log. -/
structure Extends (txn : Txn) (recs : List TxnOperation) (txn' : Txn) : Prop where
  operations : txn'.operations = recs ++ txn.operations
  operationCount : txn'.operationCount = recs.length + txn.operationCount
  database : txn'.database = txn.database
  savepoints : txn'.savepoints = txn.savepoints

theorem Extends.refl (txn : Txn) : Extends txn [] txn where
  operations := rfl
  operationCount := (Nat.zero_add _).symm
  database := rfl
  savepoints := rfl

theorem Extends.trans {txn txn' txn'' : Txn} {recs recs' : List TxnOperation}
    (h₁ : Extends txn recs txn') (h₂ : Extends txn' recs' txn'') :
    Extends txn (recs' ++ recs) txn'' where
  operations := by rw [h₂.operations, h₁.operations, List.append_assoc]
  operationCount := by
    rw [h₂.operationCount, h₁.operationCount, List.length_append, Nat.add_assoc]
  database := h₂.database.trans h₁.database
  savepoints := h₂.savepoints.trans h₁.savepoints

omit [NeZero n] in
theorem activeTxn_eq_some {manager : TransactionManager} {txn : Txn} :
    manager.activeTxn = some txn ↔ manager.currentTxn = some txn ∧ txn.state = .active := by
  unfold TransactionManager.activeTxn
  simp [Option.filter_eq_some_iff]

/-- A write pushes its record, if it has one, on the active transaction. -/
theorem extends_apply {db : Db n} {txn : Txn} (ht : db.txnManager.activeTxn = some txn)
    (w : Write) :
    ∃ txn', (w.apply db).txnManager.activeTxn = some txn' ∧
      Extends txn w.record.toList txn' := by
  unfold Write.apply
  cases w.record with
  | none => exact ⟨txn, ht, Extends.refl txn⟩
  | some op =>
      dsimp only
      have hcall : (db.call w.call).txnManager.activeTxn = some txn := ht
      unfold Db.pushOperation
      rw [hcall]
      refine ⟨_, activeTxn_eq_some.mpr ⟨rfl, (activeTxn_eq_some.mp ht).2⟩, ?_⟩
      exact ⟨rfl, Nat.add_comm _ _, rfl, rfl⟩

/-! ## Reversible writes -/

/-- Undoing the write's record right after the write restores the entries, off `F`. -/
def Reversible (F : CStr → Bool) (database : CStr) (db : Db n) (w : Write) : Prop :=
  AgreeOff F (undoEntries database w.record.toList (w.call.exec db.store).entries)
    db.store.entries

/-- Undoing all records of a chain of reversible writes restores the entries, off `F`. -/
theorem chain_reverts {F : CStr → Bool} {database : CStr} {Q : TxnOperation → Prop}
    {db db' : Db n} (hc : Chain
      (fun db w => Reversible F database db w ∧ ∀ op ∈ w.record, Q op) db db')
    {txn : Txn} (ht : db.txnManager.activeTxn = some txn) :
    ∃ txn' recs, db'.txnManager.activeTxn = some txn' ∧ Extends txn recs txn' ∧
      (∀ op ∈ recs, Q op) ∧
      AgreeOff F (undoEntries database recs db'.store.entries) db.store.entries := by
  induction hc generalizing txn with
  | done db => exact ⟨txn, [], ht, Extends.refl txn, by simp, AgreeOff.refl F _⟩
  | aside out indexes _ ih => exact ih ht
  | @write db db' w hw _ ih =>
      obtain ⟨hrev, hQ⟩ := hw
      obtain ⟨txn₁, ht₁, hext₁⟩ := extends_apply ht w
      obtain ⟨txn', recs, ht', hext, hQrecs, hagree⟩ := ih ht₁
      refine ⟨txn', recs ++ w.record.toList, ht', hext₁.trans hext, ?_, ?_⟩
      · intro op hop
        rcases List.mem_append.mp hop with hop | hop
        · exact hQrecs op hop
        · exact hQ op (Option.mem_toList.mp hop)
      · rw [store_apply] at hagree
        rw [undoEntries_append]
        exact (hagree.applyOps _).trans hrev

section Kinds

variable {F : CStr → Bool} {database tableName key : CStr} {db : Db n}

/-- The undo of a record that asks for one call. -/
theorem undoEntries_one {op : TxnOperation} {c : KVCall} (hc : undoCall database op = some c)
    (entries : Table CStr Value n) :
    undoEntries database [op] entries = applyOps CStr.slot entries (opsOf [c]) := by
  simp [undoEntries, hc]

/-- A write is reversible if its record leads back to the entries. -/
theorem reversible_of_undoEntries {w : Write}
    (hundo : undoEntries database w.record.toList (w.call.exec db.store).entries =
      db.store.entries) : Reversible F database db w := by
  rw [Reversible, hundo]
  exact AgreeOff.refl F _

/-- A put at a new key, whose record asks for the key's delete. -/
theorem reversible_put_new {op : TxnOperation} (hget : db.get key = none)
    (hcall : undoCall database op = some (.delete key)) (val : Value) :
    Reversible F database db ⟨.put key val, some op⟩ := by
  refine reversible_of_undoEntries ?_
  change undoEntries database [op] (kvPut db.store key val).entries = _
  rw [undoEntries_one hcall, entries_kvPut]
  exact erase_insert hget

/-- A delete whose record asks for the old value. -/
theorem reversible_delete_old {op : TxnOperation} {old : Value} (hget : db.get key = some old)
    (hcall : undoCall database op = some (.put key old)) :
    Reversible F database db ⟨.delete key, some op⟩ := by
  refine reversible_of_undoEntries ?_
  change undoEntries database [op] (kvDelete db.store key).entries = _
  rw [undoEntries_one hcall, entries_kvDelete]
  exact insert_erase hget

theorem reversible_insert (hget : db.get key = none) (val : Value) :
    Reversible F database db
      ⟨.put key val, some (createOperation .insert tableName (some key) none)⟩ :=
  reversible_put_new hget rfl val

theorem createOperation_oldValue {type : TransactionOpType} {key : Option CStr}
    {old : List UInt8} (hold : old ≠ []) :
    (createOperation type tableName key (some old)).oldValue = some old := by
  simp [createOperation, hold]

/-- A record of a DELETE or an UPDATE asks for its old value back. -/
theorem undoCall_oldValue {op : TxnOperation} {old : List UInt8}
    (htype : op.type = .delete ∨ op.type = .update) (hkey : op.key = some key)
    (hold : op.oldValue = some old) :
    undoCall database op = some (.put key { data := old, type := .row }) := by
  rcases htype with htype | htype <;> simp [undoCall, htype, hkey, hold]

theorem reversible_delete {old : List UInt8} (hold : old ≠ [])
    (hget : db.get key = some { data := old, type := .row }) :
    Reversible F database db
      ⟨.delete key, some (createOperation .delete tableName (some key) (some old))⟩ :=
  reversible_delete_old hget (undoCall_oldValue (Or.inl rfl) rfl (createOperation_oldValue hold))

theorem reversible_update {old : List UInt8} (hold : old ≠ [])
    (hget : db.get key = some { data := old, type := .row }) (val : Value) :
    Reversible F database db
      ⟨.put key val, some (createOperation .update tableName (some key) (some old))⟩ := by
  refine reversible_of_undoEntries ?_
  change undoEntries database [createOperation .update tableName (some key) (some old)]
      (kvPut db.store key val).entries = _
  rw [undoEntries_one
    (undoCall_oldValue (Or.inr rfl) rfl (createOperation_oldValue hold)), entries_kvPut]
  exact insert_insert.trans (insert_lookup_self hget)

theorem reversible_createTable {schema : CStr} (hget : db.get key = none)
    (hkey : rollbackSchemaKey database tableName = key) (val : Value) :
    Reversible F database db
      ⟨.put key val, some
        { createOperation .createTable tableName none none with schemaJson := some schema }⟩ :=
  reversible_put_new hget (by rw [← hkey]; rfl) val

theorem reversible_dropTable {schema : CStr}
    (hget : db.get key = some { data := schema.val ++ [0], type := .schema })
    (hkey : rollbackSchemaKey database tableName = key) :
    Reversible F database db
      ⟨.delete key, some
        { createOperation .dropTable tableName none none with schemaJson := some schema }⟩ :=
  reversible_delete_old hget (by rw [← hkey]; rfl)

/-- An unlogged put is harmless if the key holds the value already. -/
theorem reversible_put_same {val : Value} (hget : db.get key = some val) :
    Reversible F database db ⟨.put key val, none⟩ := by
  refine reversible_of_undoEntries ?_
  change (kvPut db.store key val).entries = _
  rw [entries_kvPut]
  exact insert_lookup_self hget

/-- An unlogged put over a key of `F` changes nothing off `F`. -/
theorem reversible_put_counter (hF : F key = true) (hget : (db.get key).isSome) (val : Value) :
    Reversible F database db ⟨.put key val, none⟩ := by
  obtain ⟨old, hold⟩ := Option.isSome_iff_exists.mp hget
  change AgreeOff F (kvPut db.store key val).entries _
  rw [entries_kvPut]
  exact agreeOff_insert hF hold

/-- An unlogged delete is harmless if the key is not there. -/
theorem reversible_delete_absent (hget : db.get key = none) :
    Reversible F database db ⟨.delete key, none⟩ := by
  refine reversible_of_undoEntries ?_
  change (kvDelete db.store key).entries = _
  rw [entries_kvDelete]
  exact erase_of_lookup_none hget

end Kinds

end Transaction
end InventixDB
