import InventixDB.Executor.RowKeys
import InventixDB.Executor.Writes
import InventixDB.Lib.ProbedSlots

/-!
# Entries — what the table statements put in the slots

CREATE TABLE puts a schema and a counter, a row of an INSERT its counter and its row.
-/

namespace InventixDB
namespace Executor

open Storage
open Transaction
open Lib.OpenAddressing

variable {n : Nat} [NeZero n] {db db' : Db n} {ctx : SessionContext} {tableName : CStr}

/-- The table is new, and its schema and its counter are written; or nothing is. -/
theorem entries_createTable {columns : List ColumnDef}
    (hexec : executeCreateTable db ctx tableName columns = some db') :
    db'.store.entries = db.store.entries ∨
      ∃ schema, schemaOf columns = some schema ∧
        kvGet db.store (schemaKey ctx.currentDb tableName) = none ∧
        db'.store.entries =
          insert CStr.slot
            (insert CStr.slot db.store.entries (schemaKey ctx.currentDb tableName)
              { data := schema.val ++ [0], type := .schema })
            (counterKey ctx.currentDb tableName) { data := CStr.intBytes 0, type := .row } := by
  obtain ⟨key, hkey, hexec⟩ := Option.bind_eq_some_iff.mp hexec
  cases sysGenerateKeySchema_eq_some hkey
  cases hget : db.get (schemaKey ctx.currentDb tableName) with
  | some v =>
      rw [hget, if_pos Option.isSome_some] at hexec
      cases hexec
      exact .inl rfl
  | none =>
      rw [hget, if_neg (by simp)] at hexec
      obtain ⟨schema, hschema, hexec⟩ := Option.bind_eq_some_iff.mp hexec
      obtain ⟨seqKey, hseq, hexec⟩ := Option.bind_eq_some_iff.mp hexec
      cases sysGenerateKeySeq_eq_some hseq
      cases hexec
      refine .inr ⟨schema, hschema, hget, ?_⟩
      change (kvPut (txnLogCreateTable _ tableName schema).store _ _).entries = _
      rw [entries_kvPut, txnLogCreateTable, store_pushOperation]
      exact congrArg (fun t => insert CStr.slot t _ _) (entries_kvPut db.store _ _)

/-- Resolving an id writes the counter of the table, or nothing. -/
theorem entries_resolveId {id finalId : CStr}
    (hid : resolveId db ctx tableName id = some (finalId, db')) :
    db'.store.entries = db.store.entries ∨
      ∃ val, db'.store.entries =
        insert CStr.slot db.store.entries (counterKey ctx.currentDb tableName) val := by
  rcases resolveId_cases hid with ⟨_, rfl⟩ | ⟨_, seqKey, val, hseq, rfl⟩
  · exact .inl rfl
  · cases sysGenerateKeySeq_eq_some hseq
    exact .inr ⟨val, entries_kvPut db.store _ val⟩

omit [NeZero n] in
theorem entries_updateIndexes {schema : Option CStr} {key : CStr} {vals : List CStr}
    (hidx : updateIndexes db tableName key schema vals = some db') :
    db'.store.entries = db.store.entries := by
  unfold updateIndexes at hidx
  cases schema with
  | none =>
      cases hidx
      rfl
  | some schema =>
      obtain ⟨text, _, rfl⟩ := Option.map_eq_some_iff.mp hidx
      rfl

/-- What one row of an INSERT does. -/
inductive InsertsRow (ctx : SessionContext) (tableName : CStr) (schema : Option CStr)
    (state state' : Db n × Nat) (vals : List CStr) : Prop
  | missing (hpk : vals[pkIndex schema]? = none) (hstore : state'.1.store = state.1.store)
      (hcount : state'.2 = state.2)
  | duplicate (id finalId : CStr) (moved : Db n) (old : Value)
      (hpk : vals[pkIndex schema]? = some id)
      (hid : resolveId state.1 ctx tableName id = some (finalId, moved))
      (hget : kvGet moved.store (rowKey ctx.currentDb tableName finalId) = some old)
      (hstore : state'.1.store = moved.store) (hcount : state'.2 = state.2)
  | stored (id finalId : CStr) (moved : Db n) (data : List UInt8)
      (hpk : vals[pkIndex schema]? = some id)
      (hid : resolveId state.1 ctx tableName id = some (finalId, moved))
      (hget : kvGet moved.store (rowKey ctx.currentDb tableName finalId) = none)
      (hdata : rowSerialize (vals.set (pkIndex schema) finalId) = some data)
      (hentries : state'.1.store.entries =
        insert CStr.slot moved.store.entries (rowKey ctx.currentDb tableName finalId)
          { data := data, type := .row })
      (hcount : state'.2 = state.2 + 1)

theorem insertRow_cases {schema : Option CStr} {state state' : Db n × Nat} {vals : List CStr}
    (hexec : insertRow ctx tableName schema state vals = some state') :
    InsertsRow ctx tableName schema state state' vals := by
  obtain ⟨db, count⟩ := state
  unfold insertRow at hexec
  dsimp only at hexec
  cases hpk : vals[pkIndex schema]? with
  | none =>
      rw [hpk] at hexec
      cases hexec
      exact .missing hpk rfl rfl
  | some id =>
      rw [hpk] at hexec
      obtain ⟨⟨finalId, moved⟩, hid, hexec⟩ := Option.bind_eq_some_iff.mp hexec
      dsimp only at hexec
      obtain ⟨key, hkey, hexec⟩ := Option.bind_eq_some_iff.mp hexec
      cases sysGenerateKeyTable_eq_some hkey
      cases hget : moved.get (rowKey ctx.currentDb tableName finalId) with
      | some old =>
          rw [hget, if_pos Option.isSome_some] at hexec
          cases hexec
          exact .duplicate id finalId moved old hpk hid hget rfl rfl
      | none =>
          rw [hget, if_neg (by simp)] at hexec
          obtain ⟨data, hdata, hexec⟩ := Option.bind_eq_some_iff.mp hexec
          obtain ⟨db₂, hidx, hexec⟩ := Option.bind_eq_some_iff.mp hexec
          cases hexec
          refine .stored id finalId moved data hpk hid hget hdata ?_ rfl
          rw [entries_updateIndexes hidx, txnLogInsert, store_pushOperation]
          exact entries_kvPut moved.store _ _

/-- The schema and the counter of a table that is there are deleted; otherwise nothing is. -/
theorem entries_dropTable (hexec : executeDropTable db ctx tableName = some db') :
    (kvGet db.store (schemaKey ctx.currentDb tableName) = none ∧
        db'.store.entries = db.store.entries) ∨
      (kvGet db.store (schemaKey ctx.currentDb tableName)).isSome = true ∧
        db'.store.entries =
          erase CStr.slot (erase CStr.slot db.store.entries (schemaKey ctx.currentDb tableName))
            (counterKey ctx.currentDb tableName) := by
  obtain ⟨key, hkey, hexec⟩ := Option.bind_eq_some_iff.mp hexec
  cases sysGenerateKeySchema_eq_some hkey
  cases hget : db.get (schemaKey ctx.currentDb tableName) with
  | none =>
      rw [hget] at hexec
      cases hexec
      exact .inl ⟨hget, rfl⟩
  | some v =>
      rw [hget] at hexec
      obtain ⟨logged, hlog, hexec⟩ := Option.bind_eq_some_iff.mp hexec
      obtain ⟨seqKey, hseq, hexec⟩ := Option.bind_eq_some_iff.mp hexec
      cases sysGenerateKeySeq_eq_some hseq
      cases hexec
      have hlogged : logged.store.entries = db.store.entries := by
        unfold txnLogDropTable at hlog
        split at hlog
        · cases hlog
          rfl
        · obtain ⟨schema, _, rfl⟩ := Option.map_eq_some_iff.mp hlog
          rw [store_pushOperation]
      refine .inr ⟨?_, ?_⟩
      · exact Option.isSome_iff_exists.mpr ⟨v, hget⟩
      change (kvDelete (kvDelete logged.store _) _).entries = _
      rw [entries_kvDelete, entries_kvDelete, hlogged]

/-! ## Documents -/

def docKey (database collection docId : CStr) : CStr :=
  CStr.lit "DB:" ++ database ++ CStr.lit ":DOC:" ++ collection ++ CStr.lit ":" ++ docId

def docCounterKey (database collection : CStr) : CStr :=
  CStr.lit "DB:" ++ database ++ CStr.lit ":DOC_SEQ:" ++ collection

theorem val_docKey (database collection docId : CStr) :
    (docKey database collection docId).val =
      (CStr.lit "DB:").val ++ (database.val ++ 58 :: (68 :: ([79, 67] ++ 58 ::
        (collection.val ++ 58 :: docId.val)))) := by
  have hdoc : (CStr.lit ":DOC:").val = 58 :: 68 :: [79, 67, 58] := by decide
  have hcolon : (CStr.lit ":").val = [58] := by decide
  simp [docKey, CStr.val_append, hdoc, hcolon]

theorem val_docCounterKey (database collection : CStr) :
    (docCounterKey database collection).val =
      (CStr.lit "DB:").val ++ (database.val ++ 58 :: (68 :: ([79, 67, 95, 83, 69, 81] ++ 58 ::
        collection.val))) := by
  have hseq : (CStr.lit ":DOC_SEQ:").val = 58 :: 68 :: [79, 67, 95, 83, 69, 81, 58] := by decide
  simp [docCounterKey, CStr.val_append, hseq]

theorem docKey_inj {database database' collection collection' docId docId' : CStr}
    (hd : Sql.isWord database = true) (hd' : Sql.isWord database' = true)
    (hc : Sql.isWord collection = true) (hc' : Sql.isWord collection' = true)
    (heq : docKey database collection docId = docKey database' collection' docId') :
    database = database' ∧ collection = collection' ∧ docId = docId' := by
  have hval := congrArg Subtype.val heq
  rw [val_docKey, val_docKey] at hval
  obtain ⟨hdatabase, hrest⟩ := append_cons_inj_of_notMem (colon_notMem_of_isWord hd)
    (colon_notMem_of_isWord hd') (List.append_cancel_left hval)
  have hrest := (List.cons.inj (List.append_cancel_left (List.cons.inj hrest).2)).2
  obtain ⟨hcollection, hdoc⟩ := append_cons_inj_of_notMem (colon_notMem_of_isWord hc)
    (colon_notMem_of_isWord hc') hrest
  exact ⟨Subtype.ext hdatabase, Subtype.ext hcollection, Subtype.ext hdoc⟩

theorem docKey_ne_docCounterKey {database database' collection collection' docId : CStr}
    (hd : Sql.isWord database = true) (hd' : Sql.isWord database' = true) :
    docKey database collection docId ≠ docCounterKey database' collection' := by
  intro heq
  have hval := congrArg Subtype.val heq
  rw [val_docKey, val_docCounterKey] at hval
  obtain ⟨_, hrest⟩ := append_cons_inj_of_notMem (colon_notMem_of_isWord hd)
    (colon_notMem_of_isWord hd') (List.append_cancel_left hval)
  obtain ⟨hkind, _⟩ := append_cons_inj_of_notMem (by decide) (by decide) (List.cons.inj hrest).2
  exact absurd hkind (by decide)

/-- Keys of a database that go on with another letter differ. -/
theorem ne_of_letter {database database' key key' : CStr} {c c' : UInt8} {rest rest' : List UInt8}
    (hd : Sql.isWord database = true) (hd' : Sql.isWord database' = true)
    (hkey : key.val = (CStr.lit "DB:").val ++ (database.val ++ 58 :: (c :: rest)))
    (hkey' : key'.val = (CStr.lit "DB:").val ++ (database'.val ++ 58 :: (c' :: rest')))
    (hc : c ≠ c') : key ≠ key' := by
  rintro rfl
  rw [hkey] at hkey'
  obtain ⟨_, hrest⟩ := append_cons_inj_of_notMem (colon_notMem_of_isWord hd)
    (colon_notMem_of_isWord hd') (List.append_cancel_left hkey')
  exact hc (List.cons.inj hrest).1

/-- The counter of the collection and the document under its next id are written. -/
theorem entries_docInsert {collection jsonBody : CStr}
    (hexec : executeDocInsert db ctx collection jsonBody = some db') :
    ∃ last nextId, counterOf db (docCounterKey ctx.currentDb collection) 0 = some last ∧
      nextInt last = some nextId ∧
      db'.store.entries =
        insert CStr.slot
          (insert CStr.slot db.store.entries (docCounterKey ctx.currentDb collection)
            { data := CStr.intBytes nextId, type := .row })
          (docKey ctx.currentDb collection (CStr.ofInt nextId))
          { data := jsonBody.val ++ [0], type := .json } := by
  obtain ⟨seqKey, hseqKey, hexec⟩ := Option.bind_eq_some_iff.mp hexec
  obtain ⟨rfl, _⟩ := CStr.sprintf_eq_some hseqKey
  obtain ⟨last, hlast, hexec⟩ := Option.bind_eq_some_iff.mp hexec
  obtain ⟨nextId, hnext, hexec⟩ := Option.bind_eq_some_iff.mp hexec
  obtain ⟨key, hkey, hexec⟩ := Option.bind_eq_some_iff.mp hexec
  obtain ⟨rfl, _⟩ := CStr.sprintf_eq_some hkey
  cases hexec
  refine ⟨last, nextId, hlast, hnext, ?_⟩
  change (kvPut (kvPut db.store _ _) _ _).entries = _
  rw [entries_kvPut, entries_kvPut]
  rfl

end Executor
end InventixDB
