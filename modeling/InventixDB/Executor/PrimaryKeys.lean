import InventixDB.Executor.Entries
import InventixDB.Executor.Targets

/-!
# PrimaryKeys — the key of a row and its primary-key column

INSERT stores a row under the value of its primary-key column and refuses a value that is taken.
UPDATE writes a row back under the key it was found with, whatever its columns are then.
-/

namespace InventixDB
namespace Executor

open Storage
open Transaction
open Lib.OpenAddressing

variable {n : Nat} [NeZero n]

/-! ## The invariant -/

/-- The schemas in the slots of the schema key of a table. -/
def storedSchemas (t : Table CStr Value n) (database tableName : CStr) : List CStr :=
  (toList t).filterMap fun e =>
    if e.1 = schemaKey database tableName ∧ e.2.type = .schema then CStr.ofBuffer? e.2.data
    else none

/-- A row of the table stands under the value of its primary-key column. -/
def KeyedRow (database tableName schema : CStr) (e : CStr × Value) : Prop :=
  ∀ row ∈ tableRow database tableName e, ∃ pk ∈ row[pkIndex (some schema)]?,
    e.1 = rowKey database tableName pk

instance instDecidableKeyedRow (database tableName schema : CStr) (e : CStr × Value) :
    Decidable (KeyedRow database tableName schema e) :=
  inferInstanceAs (Decidable (∀ row ∈ tableRow database tableName e, _))

/-- Every row of the table stands under its primary key, and no two of them have the same. -/
structure PrimaryKeysHold (t : Table CStr Value n) (database tableName schema : CStr) : Prop where
  keyed : ∀ i e, t i = some e → KeyedRow database tableName schema e
  unique : ∀ i j e e' row row' pk, t i = some e → t j = some e' →
    tableRow database tableName e = some row → tableRow database tableName e' = some row' →
    row[pkIndex (some schema)]? = some pk → row'[pkIndex (some schema)]? = some pk → i = j

/-- The primary keys of all tables hold. -/
def PrimaryKeys (store : KVStore n) : Prop :=
  ∀ database tableName, Sql.isWord database = true → Sql.isWord tableName = true →
    ∀ schema ∈ storedSchemas store.entries database tableName,
      PrimaryKeysHold store.entries database tableName schema

omit [NeZero n] in
theorem mem_storedSchemas {t : Table CStr Value n} {database tableName schema : CStr} :
    schema ∈ storedSchemas t database tableName ↔
      ∃ i v, t i = some (schemaKey database tableName, v) ∧ v.type = .schema ∧
        CStr.ofBuffer? v.data = some schema := by
  unfold storedSchemas
  rw [List.mem_filterMap]
  constructor
  · rintro ⟨⟨key, v⟩, hmem, hsome⟩
    obtain ⟨i, hi⟩ := mem_toList.mp hmem
    split at hsome
    · next hkey =>
        obtain ⟨rfl, htype⟩ := hkey
        exact ⟨i, v, hi, htype, hsome⟩
    · cases hsome
  · rintro ⟨i, v, hi, htype, hdata⟩
    exact ⟨_, mem_toList.mpr ⟨i, hi⟩, by rw [if_pos ⟨rfl, htype⟩, hdata]⟩

/-- A row of a table stands under one of its row keys. -/
theorem key_of_tableRow {database tableName : CStr} {e : CStr × Value} {row : List CStr}
    (hrow : tableRow database tableName e = some row) :
    ∃ pk, e.1 = rowKey database tableName pk := by
  unfold tableRow at hrow
  split at hrow
  · next hstarts => exact startsWith_rowPrefix_iff.mp hstarts
  · cases hrow

@[simp]
theorem tableRow_rowKey (database tableName pk : CStr) (v : Value) :
    tableRow database tableName (rowKey database tableName pk, v) =
      (rowDeserialize v.data).join :=
  if_pos (startsWith_rowPrefix_iff.mpr ⟨pk, rfl⟩)

/-- What a row key of a table holds is a row of no other. -/
theorem table_of_tableRow {database tableName database' tableName' pk : CStr} {v : Value}
    {row : List CStr} (hd : Sql.isWord database = true) (hd' : Sql.isWord database' = true)
    (ht : Sql.isWord tableName = true) (ht' : Sql.isWord tableName' = true)
    (hrow : tableRow database tableName (rowKey database' tableName' pk, v) = some row) :
    database = database' ∧ tableName = tableName' := by
  obtain ⟨pk', hkey⟩ := key_of_tableRow hrow
  obtain ⟨hdatabase, htable, _⟩ := rowKey_inj hd' hd ht' ht hkey
  exact ⟨hdatabase.symm, htable.symm⟩

/-! ## What carries the invariant -/

/-- Every stored row stands under its primary key, by every stored schema of its table. -/
def Keyed (t : Table CStr Value n) : Prop :=
  ∀ database tableName, Sql.isWord database = true → Sql.isWord tableName = true →
    ∀ schema ∈ storedSchemas t database tableName, ∀ i e, t i = some e →
      KeyedRow database tableName schema e

def IsRowKey (key : CStr) : Prop :=
  ∃ database tableName pk, Sql.isWord database = true ∧ Sql.isWord tableName = true ∧
    key = rowKey database tableName pk

/-- No two slots have the same row key. -/
def UniqueRowKeys (t : Table CStr Value n) : Prop :=
  ∀ i j e e', t i = some e → t j = some e' → IsRowKey e.1 → e.1 = e'.1 → i = j

structure KeysMatch (t : Table CStr Value n) : Prop where
  keyed : Keyed t
  unique : UniqueRowKeys t

omit [NeZero n] in
theorem KeysMatch.primaryKeys {store : KVStore n} (hmatch : KeysMatch store.entries) :
    PrimaryKeys store := by
  intro database tableName hd ht schema hschema
  refine ⟨hmatch.keyed database tableName hd ht schema hschema, ?_⟩
  intro i j e e' row row' pk hi hj hrow hrow' hpk hpk'
  obtain ⟨pk₁, hpk₁, hkey⟩ := hmatch.keyed database tableName hd ht schema hschema i e hi row hrow
  obtain ⟨pk₂, hpk₂, hkey'⟩ :=
    hmatch.keyed database tableName hd ht schema hschema j e' hj row' hrow'
  cases hpk.symm.trans hpk₁
  cases hpk'.symm.trans hpk₂
  exact hmatch.unique i j e e' hi hj ⟨database, tableName, pk, hd, ht, hkey⟩
    (hkey.trans hkey'.symm)

omit [NeZero n] in
theorem keysMatch_empty : KeysMatch (empty : Table CStr Value n) where
  keyed _ _ _ _ _ _ _ _ hentry := by cases hentry
  unique _ _ _ _ hentry := by cases hentry

section Steps

variable {t : Table CStr Value n} {key : CStr} {val : Value}

theorem KeysMatch.erase (hmatch : KeysMatch t) (key : CStr) :
    KeysMatch (erase CStr.slot t key) where
  keyed database tableName hd ht schema hschema i e hentry := by
    obtain ⟨j, v, hj, hstored⟩ := mem_storedSchemas.mp hschema
    exact hmatch.keyed database tableName hd ht schema
      (mem_storedSchemas.mpr ⟨j, v, erase_slot hj, hstored⟩) i e (erase_slot hentry)
  unique i j e e' hi hj hrow hkeys :=
    hmatch.unique i j e e' (erase_slot hi) (erase_slot hj) hrow hkeys

/-- A put keeps the invariant if its entry is a keyed row or no row, if it is a schema that fits
the rows there are, and if its key is stored nowhere that the probe does not find it. -/
theorem KeysMatch.insert (hmatch : KeysMatch t)
    (hrow : ∀ database tableName, Sql.isWord database = true → Sql.isWord tableName = true →
      ∀ schema ∈ storedSchemas t database tableName,
        KeyedRow database tableName schema (key, val))
    (hschema : ∀ database tableName, Sql.isWord database = true → Sql.isWord tableName = true →
      key = schemaKey database tableName → ∀ schema ∈ CStr.ofBuffer? val.data,
        ∀ i e, t i = some e → KeyedRow database tableName schema e)
    (hfresh : IsRowKey key → lookup CStr.slot t key = none → ∀ i e, t i = some e → e.1 ≠ key) :
    KeysMatch (insert CStr.slot t key val) where
  keyed database tableName hd ht schema hstored i e hentry := by
    obtain ⟨j, v, hj, htype, hdata⟩ := mem_storedSchemas.mp hstored
    rcases insert_slot hj with hold | hnew
    · have hbefore := mem_storedSchemas.mpr ⟨j, v, hold, htype, hdata⟩
      rcases insert_slot hentry with hentry | rfl
      · exact hmatch.keyed database tableName hd ht schema hbefore i e hentry
      · exact hrow database tableName hd ht schema hbefore
    · obtain ⟨hkey, rfl⟩ := Prod.mk.inj hnew
      rcases insert_slot hentry with hentry | rfl
      · exact hschema database tableName hd ht hkey.symm schema hdata i e hentry
      · -- a schema key holds no row
        intro row htable
        obtain ⟨pk, hpk⟩ := key_of_tableRow htable
        exact absurd (hpk.symm.trans hkey.symm) (rowKey_ne_schemaKey hd hd)
  unique _ _ _ _ hi hj hP hkeys := insert_key_unique hmatch.unique hfresh hi hj hP hkeys

/-- A counter is neither a row nor a schema. -/
theorem KeysMatch.insertCounter {database tableName : CStr} (hmatch : KeysMatch t)
    (hword : Sql.isWord database = true) (val : Value) :
    KeysMatch (Lib.OpenAddressing.insert CStr.slot t (counterKey database tableName) val) := by
  refine hmatch.insert ?_ ?_ ?_
  · intro database' tableName' hd' _ schema _ row hrow
    obtain ⟨pk, hkey⟩ := key_of_tableRow hrow
    exact absurd hkey.symm (rowKey_ne_counterKey hd' hword)
  · intro database' tableName' hd' _ hkey
    exact absurd hkey (counterKey_ne_schemaKey hword hd')
  · rintro ⟨database', tableName', pk, hd', _, hkey⟩
    exact absurd hkey.symm (rowKey_ne_counterKey hd' hword)

end Steps

/-! ## Runs of table statements -/

/-- The statements on tables and rows; a table name is one word. -/
def isTableStatement : ASTNode → Bool
  | .createTable tableName _ => Sql.isWord tableName
  | .insert tableName _ => Sql.isWord tableName
  | .delete tableName _ => Sql.isWord tableName
  | .update tableName _ _ => Sql.isWord tableName
  | _ => false

/-- Statements of any sessions, one after another. -/
def runSteps : Db n → List (SessionContext × ASTNode) → Option (Db n)
  | db, [] => some db
  | db, s :: steps => (executeQuery db s.1 s.2).bind fun r => runSteps r.1 steps

/-- A new table has no row that stands under another key than its primary key. -/
def CreateFits (db : Db n) (ctx : SessionContext) (tableName : CStr) (columns : List ColumnDef) :
    Prop :=
  kvGet db.store (schemaKey ctx.currentDb tableName) = none →
    ∀ schema ∈ schemaOf columns, ∀ e ∈ toList db.store.entries,
      KeyedRow ctx.currentDb tableName schema e

instance instDecidableCreateFits (db : Db n) (ctx : SessionContext) (tableName : CStr)
    (columns : List ColumnDef) : Decidable (CreateFits db ctx tableName columns) :=
  inferInstanceAs (Decidable (_ → _))

/-- A row whose key is not found has its key in no slot, and its columns can be counted. -/
def RowFits (ctx : SessionContext) (tableName : CStr) (schema : Option CStr) (db : Db n)
    (vals : List CStr) : Prop :=
  vals.length < 2 ^ 32 ∧
    ∀ id ∈ vals[pkIndex schema]?, ∀ moved ∈ resolveId db ctx tableName id,
      kvGet moved.2.store (rowKey ctx.currentDb tableName moved.1) = none →
        ∀ e ∈ toList moved.2.store.entries, e.1 ≠ rowKey ctx.currentDb tableName moved.1

instance instDecidableRowFits (ctx : SessionContext) (tableName : CStr) (schema : Option CStr)
    (db : Db n) (vals : List CStr) : Decidable (RowFits ctx tableName schema db vals) :=
  inferInstanceAs (Decidable (_ ∧ _))

/-- An INSERT takes the primary-key column from every schema stored for its table. -/
def InsertFits (db : Db n) (ctx : SessionContext) (tableName : CStr) (rows : List (List CStr)) :
    Prop :=
  ∀ schema ∈ schemaText (kvGet db.store (schemaKey ctx.currentDb tableName)),
    (∀ stored ∈ storedSchemas db.store.entries ctx.currentDb tableName,
      pkIndex (some stored) = pkIndex schema) ∧
      RowsMeet (RowFits ctx tableName schema) ctx tableName schema (db, 0) rows

instance instDecidableInsertFits (db : Db n) (ctx : SessionContext) (tableName : CStr)
    (rows : List (List CStr)) : Decidable (InsertFits db ctx tableName rows) :=
  inferInstanceAs
    (Decidable (∀ schema ∈ schemaText (kvGet db.store (schemaKey ctx.currentDb tableName)), _))

/-- An UPDATE gives the primary-key column of the row it rewrites no other value. -/
def UpdateKeepsKey (db : Db n) (ctx : SessionContext) (tableName : CStr)
    (sets : List (CStr × CStr)) (whereClause : Option ASTExpr) : Prop :=
  ∀ schema ∈ tableSchema db.store ctx.currentDb tableName,
    KnownColumns (columnNames schema) sets → ∀ id ∈ updateTarget whereClause,
      ∀ target ∈ rewrittenRow db.store (rowKey ctx.currentDb tableName id),
        ∀ stored ∈ storedSchemas db.store.entries ctx.currentDb tableName,
          ∀ value ∈ setValue (columnNames schema) sets (pkIndex (some stored)),
            target.2[pkIndex (some stored)]? = some value

instance instDecidableUpdateKeepsKey (db : Db n) (ctx : SessionContext) (tableName : CStr)
    (sets : List (CStr × CStr)) (whereClause : Option ASTExpr) :
    Decidable (UpdateKeepsKey db ctx tableName sets whereClause) :=
  haveI : ∀ names, Decidable (KnownColumns names sets) := fun _ =>
    inferInstanceAs (Decidable (∀ set ∈ sets, _))
  inferInstanceAs (Decidable (∀ schema ∈ tableSchema db.store ctx.currentDb tableName, _))

/-- The step leaves every row under its primary key; a DELETE always does. -/
def StepFits (db : Db n) (ctx : SessionContext) : ASTNode → Prop
  | .createTable tableName columns => CreateFits db ctx tableName columns
  | .insert tableName rows => InsertFits db ctx tableName rows
  | .update tableName sets whereClause => UpdateKeepsKey db ctx tableName sets whereClause
  | _ => True

instance instDecidableStepFits (db : Db n) (ctx : SessionContext) :
    (stmt : ASTNode) → Decidable (StepFits db ctx stmt) := fun stmt =>
  match stmt with
  | .createTable tableName columns => instDecidableCreateFits db ctx tableName columns
  | .insert tableName rows => instDecidableInsertFits db ctx tableName rows
  | .update tableName sets whereClause =>
      instDecidableUpdateKeepsKey db ctx tableName sets whereClause
  | .delete _ _ | .dropTable _ | .docInsert _ _ | .docRemove _ _ | .checkpoint
  | .createIndex _ _ | .createUser _ _ | .createDb _ | .useDb _ | .dropDb _ | .begin | .commit
  | .rollback | .rollbackTo _ | .savepoint _ | .releaseSavepoint _ | .foreign _ _ => isTrue trivial

/-- Every step of a run fits the state it meets. -/
def RunFits : Db n → List (SessionContext × ASTNode) → Prop
  | _, [] => True
  | db, s :: steps =>
      StepFits db s.1 s.2 ∧ ∀ r ∈ executeQuery db s.1 s.2, RunFits r.1 steps

instance instDecidableRunFits : (db : Db n) → (steps : List (SessionContext × ASTNode)) →
    Decidable (RunFits db steps)
  | _, [] => isTrue trivial
  | _, _ :: steps =>
      haveI : DecidablePred fun r : Db n × SessionContext => RunFits r.1 steps :=
        fun r => instDecidableRunFits r.1 steps
      inferInstanceAs (Decidable (_ ∧ _))

/-! ## Every step keeps the invariant -/

/-- A put under another key adds no schema. -/
theorem storedSchemas_insert {t : Table CStr Value n} {database tableName key schema : CStr}
    {val : Value} (hne : key ≠ schemaKey database tableName)
    (hschema : schema ∈ storedSchemas (insert CStr.slot t key val) database tableName) :
    schema ∈ storedSchemas t database tableName := by
  obtain ⟨i, v, hi, htype, hdata⟩ := mem_storedSchemas.mp hschema
  rcases insert_slot hi with hold | hnew
  · exact mem_storedSchemas.mpr ⟨i, v, hold, htype, hdata⟩
  · exact absurd (congrArg Prod.fst hnew).symm hne

section Statements

variable {db db' : Db n} {ctx : SessionContext} {tableName : CStr}

theorem KeysMatch.createTable {columns : List ColumnDef} (hmatch : KeysMatch db.store.entries)
    (hd : Sql.isWord ctx.currentDb = true) (hfits : CreateFits db ctx tableName columns)
    (hexec : executeCreateTable db ctx tableName columns = some db') :
    KeysMatch db'.store.entries := by
  rcases entries_createTable hexec with heq | ⟨schema, hschema, hget, heq⟩
  · rw [heq]
    exact hmatch
  · rw [heq]
    refine KeysMatch.insertCounter (hmatch.insert ?_ ?_ ?_) hd _
    · intro database tableName' hd' _ stored _ row hrow
      obtain ⟨pk, hkey⟩ := key_of_tableRow hrow
      exact absurd hkey.symm (rowKey_ne_schemaKey hd' hd)
    · intro database tableName' hd' _ hkey schema' hdata i e hentry
      obtain ⟨rfl, rfl⟩ := schemaKey_inj hd hd' hkey
      rw [CStr.ofBuffer?_terminated, Option.mem_some_iff] at hdata
      subst hdata
      exact hfits hget schema hschema e (mem_toList.mpr ⟨i, hentry⟩)
    · rintro ⟨database, tableName', pk, hd', _, hkey⟩
      exact absurd hkey.symm (rowKey_ne_schemaKey hd' hd)

/-- One row of an INSERT keeps the invariant and adds no schema. -/
theorem KeysMatch.insertRow {schema : Option CStr} {state state' : Db n × Nat} {vals : List CStr}
    (hmatch : KeysMatch state.1.store.entries) (hd : Sql.isWord ctx.currentDb = true)
    (ht : Sql.isWord tableName = true)
    (hpk : ∀ stored ∈ storedSchemas state.1.store.entries ctx.currentDb tableName,
      pkIndex (some stored) = pkIndex schema)
    (hfits : RowFits ctx tableName schema state.1 vals)
    (hexec : Executor.insertRow ctx tableName schema state vals = some state') :
    KeysMatch state'.1.store.entries ∧
      ∀ stored ∈ storedSchemas state'.1.store.entries ctx.currentDb tableName,
        stored ∈ storedSchemas state.1.store.entries ctx.currentDb tableName := by
  have hmoved : ∀ {id finalId : CStr} {moved : Db n},
      resolveId state.1 ctx tableName id = some (finalId, moved) →
      KeysMatch moved.store.entries ∧
        ∀ stored ∈ storedSchemas moved.store.entries ctx.currentDb tableName,
          stored ∈ storedSchemas state.1.store.entries ctx.currentDb tableName := by
    intro id finalId moved hid
    rcases entries_resolveId hid with heq | ⟨val, heq⟩
    · rw [heq]
      exact ⟨hmatch, fun _ hstored => hstored⟩
    · rw [heq]
      exact ⟨hmatch.insertCounter hd val,
        fun _ hstored => storedSchemas_insert (counterKey_ne_schemaKey hd hd) hstored⟩
  cases insertRow_cases hexec with
  | missing _ hstore _ =>
      rw [hstore]
      exact ⟨hmatch, fun _ hstored => hstored⟩
  | duplicate id finalId moved old _ hid _ hstore _ =>
      rw [hstore]
      exact hmoved hid
  | stored id finalId moved data hval hid hget hdata hentries _ =>
      obtain ⟨hmatch₁, hschemas⟩ := hmoved hid
      obtain ⟨hcount, hfresh⟩ := hfits
      rw [hentries]
      refine ⟨hmatch₁.insert ?_ ?_ ?_, fun stored hstored =>
        hschemas stored (storedSchemas_insert (rowKey_ne_schemaKey hd hd) hstored)⟩
      · intro database tableName' hd' ht' stored hstored row hrow
        obtain ⟨rfl, rfl⟩ := table_of_tableRow hd' hd ht' ht hrow
        rw [tableRow_rowKey] at hrow
        have hread := Option.join_eq_some_iff.mp hrow
        rw [rowDeserialize_eq (by rwa [List.length_set]) hdata hread,
          hpk stored (hschemas stored hstored)]
        refine ⟨finalId, ?_, rfl⟩
        rw [Option.mem_def, List.getElem?_set_self]
        exact (List.getElem?_eq_some_iff.mp hval).1
      · intro database tableName' hd' _ hkey
        exact absurd hkey (rowKey_ne_schemaKey hd hd')
      · intro _ hlookup i e hentry
        exact hfresh id hval (finalId, moved) hid hget e (mem_toList.mpr ⟨i, hentry⟩)

theorem KeysMatch.insertRows {schema : Option CStr} {state state' : Db n × Nat}
    {rows : List (List CStr)} (hmatch : KeysMatch state.1.store.entries)
    (hd : Sql.isWord ctx.currentDb = true) (ht : Sql.isWord tableName = true)
    (hpk : ∀ stored ∈ storedSchemas state.1.store.entries ctx.currentDb tableName,
      pkIndex (some stored) = pkIndex schema)
    (hfits : RowsMeet (RowFits ctx tableName schema) ctx tableName schema state rows)
    (hexec : Executor.insertRows ctx tableName schema state rows = some state') :
    KeysMatch state'.1.store.entries := by
  induction rows generalizing state with
  | nil =>
      cases hexec
      exact hmatch
  | cons vals rows ih =>
      obtain ⟨hrow, hrest⟩ := hfits
      obtain ⟨state₁, hone, hrows⟩ := Option.bind_eq_some_iff.mp hexec
      obtain ⟨hmatch₁, hschemas⟩ := hmatch.insertRow hd ht hpk hrow hone
      exact ih hmatch₁ (fun stored hstored => hpk stored (hschemas stored hstored))
        (hrest state₁ hone) hrows

theorem KeysMatch.insertStatement {rows : List (List CStr)} (hmatch : KeysMatch db.store.entries)
    (hd : Sql.isWord ctx.currentDb = true) (ht : Sql.isWord tableName = true)
    (hfits : InsertFits db ctx tableName rows)
    (hexec : executeInsert db ctx tableName rows = some db') : KeysMatch db'.store.entries := by
  unfold executeInsert at hexec
  by_cases hrows : rows = []
  · rw [if_pos hrows] at hexec
    cases hexec
    exact hmatch
  · rw [if_neg hrows] at hexec
    obtain ⟨metaKey, hkey, hexec⟩ := Option.bind_eq_some_iff.mp hexec
    cases sysGenerateKeySchema_eq_some hkey
    obtain ⟨schema, hschema, hexec⟩ := Option.bind_eq_some_iff.mp hexec
    obtain ⟨⟨db₁, count⟩, hins, hexec⟩ := Option.bind_eq_some_iff.mp hexec
    cases hexec
    obtain ⟨hpk, hmeet⟩ := hfits schema hschema
    exact KeysMatch.insertRows hmatch hd ht hpk hmeet hins

theorem KeysMatch.delete {whereClause : Option ASTExpr} (hmatch : KeysMatch db.store.entries)
    (hexec : executeDelete db ctx tableName whereClause = some db') :
    KeysMatch db'.store.entries := by
  rcases delete_cases hexec with ⟨_, _, hstore⟩ | ⟨id, key, _, _, hstore, _⟩
  · rw [hstore]
    exact hmatch
  · rw [hstore, entries_kvDelete]
    exact hmatch.erase key

theorem KeysMatch.update {sets : List (CStr × CStr)} {whereClause : Option ASTExpr}
    (hmatch : KeysMatch db.store.entries) (hd : Sql.isWord ctx.currentDb = true)
    (ht : Sql.isWord tableName = true)
    (hfits : UpdateKeepsKey db ctx tableName sets whereClause)
    (hexec : executeUpdate db ctx tableName sets whereClause = some db') :
    KeysMatch db'.store.entries := by
  rcases update_cases hexec with ⟨_, hstore⟩ | ⟨schema, hschema, hrest⟩
  · rw [hstore]
    exact hmatch
  rcases hrest with ⟨_, message, _, _, hstore⟩ | ⟨id, key, hknown, htarget, hkey, hrewrites, _⟩
  · rw [hstore]
    exact hmatch
  cases sysGenerateKeyTable_eq_some hkey
  cases hrewrites with
  | missed _ hstore =>
      rw [hstore]
      exact hmatch
  | rewrote j val values data hentry hrewritten hread hdata hstore =>
      have hkeep := hfits schema hschema hknown id htarget (j, values) hrewritten
      have hhit : probe CStr.slot db.store.entries (rowKey ctx.currentDb tableName id) =
          .hit j := by
        unfold rewrittenRow at hrewritten
        split at hrewritten
        · next i hp =>
            obtain ⟨e, _, hsome⟩ := Option.bind_eq_some_iff.mp hrewritten
            obtain ⟨row, _, heq⟩ := Option.map_eq_some_iff.mp hsome
            cases heq
            exact hp
        · cases hrewritten
      rw [hstore, ← insert_of_hit hhit]
      refine hmatch.insert ?_ ?_ ?_
      · intro database tableName' hd' ht' stored hstored row hrow
        obtain ⟨rfl, rfl⟩ := table_of_tableRow hd' hd ht' ht hrow
        have hold : tableRow ctx.currentDb tableName'
            (rowKey ctx.currentDb tableName' id, val) = some values := by
          rw [tableRow_rowKey]
          exact Option.join_eq_some_iff.mpr hread
        obtain ⟨pk, hpk, hkeyed⟩ :=
          hmatch.keyed ctx.currentDb tableName' hd ht stored hstored j _ hentry values hold
        have hnew : row = applySets (columnNames schema) sets values := by
          have hcount : (applySets (columnNames schema) sets values).length ≤ 1000 := by
            rw [length_applySets]
            exact length_rowDeserialize hread
          rw [tableRow_rowKey, rowDeserialize_rowSerialize hcount hdata] at hrow
          cases hrow
          rfl
        refine ⟨pk, ?_, hkeyed⟩
        rw [Option.mem_def] at hpk ⊢
        rw [hnew, applySets_setColumns, hpk, Option.map_some]
        cases hset : setValue (columnNames schema) sets (pkIndex (some stored)) with
        | none => rfl
        | some value =>
            -- the value set is the one the row has
            have hsame := hkeep stored hstored value hset
            cases hpk.symm.trans hsame
            rfl
      · intro database tableName' hd' _ hkey'
        exact absurd hkey' (rowKey_ne_schemaKey hd hd')
      · intro _ hlookup
        obtain ⟨v, hv⟩ : ∃ v, lookup CStr.slot db.store.entries
            (rowKey ctx.currentDb tableName id) = some v :=
          ⟨val, lookup_eq_some_iff_hit.mpr ⟨j, hhit, hentry⟩⟩
        rw [hlookup] at hv
        cases hv

end Statements

theorem KeysMatch.step {db db' : Db n} {ctx ctx' : SessionContext} {stmt : ASTNode}
    (hmatch : KeysMatch db.store.entries) (hd : Sql.isWord ctx.currentDb = true)
    (hstmt : isTableStatement stmt = true) (hfits : StepFits db ctx stmt)
    (hexec : executeQuery db ctx stmt = some (db', ctx')) : KeysMatch db'.store.entries := by
  cases stmt with
  | createTable tableName columns =>
      obtain ⟨_, hdone, heq⟩ := Option.map_eq_some_iff.mp hexec
      cases heq
      exact hmatch.createTable hd hfits hdone
  | insert tableName rows =>
      obtain ⟨_, hdone, heq⟩ := Option.map_eq_some_iff.mp hexec
      cases heq
      exact hmatch.insertStatement hd hstmt hfits hdone
  | delete tableName whereClause =>
      obtain ⟨_, hdone, heq⟩ := Option.map_eq_some_iff.mp hexec
      cases heq
      exact hmatch.delete hdone
  | update tableName sets whereClause =>
      obtain ⟨_, hdone, heq⟩ := Option.map_eq_some_iff.mp hexec
      cases heq
      exact hmatch.update hd hstmt hfits hdone
  | _ => cases hstmt

theorem KeysMatch.run {db db' : Db n} {steps : List (SessionContext × ASTNode)}
    (hmatch : KeysMatch db.store.entries)
    (hsteps : ∀ s ∈ steps, Sql.isWord s.1.currentDb = true ∧ isTableStatement s.2 = true)
    (hfits : RunFits db steps) (hrun : runSteps db steps = some db') :
    KeysMatch db'.store.entries := by
  induction steps generalizing db with
  | nil =>
      cases hrun
      exact hmatch
  | cons s steps ih =>
      obtain ⟨hstep, hrest⟩ := hfits
      obtain ⟨r, hexec, hrun⟩ := Option.bind_eq_some_iff.mp hrun
      obtain ⟨hd, hstmt⟩ := hsteps s List.mem_cons_self
      exact ih (hmatch.step hd hstmt hstep hexec)
        (fun s' hs' => hsteps s' (List.mem_cons_of_mem s hs')) (hrest r hexec) hrun

/-- In every state a server reaches by table statements that leave the rows under their primary
keys, each row stands under its primary key, and no two rows of a table have the same. -/
theorem primaryKeys_hold (steps : List (SessionContext × ASTNode)) (db : Db 1024)
    (hsteps : ∀ s ∈ steps, Sql.isWord s.1.currentDb = true ∧ isTableStatement s.2 = true)
    (hfits : RunFits serverInit steps) (hrun : runSteps serverInit steps = some db) :
    PrimaryKeys db.store :=
  KeysMatch.primaryKeys (KeysMatch.run keysMatch_empty hsteps hfits hrun)

/-- CREATE TABLE, two rows, an UPDATE of the other column and a DELETE. -/
def keyedSteps : List (SessionContext × ASTNode) :=
  [.createTable (CStr.lit "t")
      [{ name := CStr.lit "id", type := CStr.lit "INT", isPk := true },
        { name := CStr.lit "v", type := CStr.lit "TEXT", isPk := false }],
    .insert (CStr.lit "t") [[CStr.lit "1", CStr.lit "a"], [CStr.lit "AUTO", CStr.lit "b"]],
    .update (CStr.lit "t") [(CStr.lit "v", CStr.lit "c")] (idIs "1"),
    .delete (CStr.lit "t") (idIs "2")].map fun stmt => (publicSession, stmt)

theorem primaryKeys_hold_keyedSteps :
    ∃ db, runSteps serverInit keyedSteps = some db ∧ PrimaryKeys db.store := by
  obtain ⟨db, hrun⟩ := Option.isSome_iff_exists.mp
    (show (runSteps serverInit keyedSteps).isSome = true by decide)
  exact ⟨db, hrun, primaryKeys_hold keyedSteps db (by decide) (by decide +kernel) hrun⟩

/-- CREATE TABLE, two rows, and an UPDATE of the primary key of the first. -/
def movedSteps : List (SessionContext × ASTNode) :=
  [.createTable (CStr.lit "t")
      [{ name := CStr.lit "id", type := CStr.lit "INT", isPk := true },
        { name := CStr.lit "v", type := CStr.lit "TEXT", isPk := false }],
    .insert (CStr.lit "t") [[CStr.lit "1", CStr.lit "a"], [CStr.lit "2", CStr.lit "b"]],
    .update (CStr.lit "t") [(CStr.lit "id", CStr.lit "2")] (idIs "1")].map
      fun stmt => (publicSession, stmt)

/-- The row stays under the key of 1, and the table has two rows with the primary key 2. -/
theorem update_moves_primaryKey :
    ∃ db, runSteps serverInit movedSteps = some db ∧
      (toList db.store.entries).filterMap (tableRow (CStr.lit "public") (CStr.lit "t")) =
        [[CStr.lit "2", CStr.lit "a"], [CStr.lit "2", CStr.lit "b"]] ∧
      ¬ PrimaryKeys db.store := by
  have hview : (runSteps serverInit movedSteps).map (fun db =>
      ((toList db.store.entries).filterMap (tableRow (CStr.lit "public") (CStr.lit "t")),
        decide (∀ schema ∈ storedSchemas db.store.entries (CStr.lit "public") (CStr.lit "t"),
          ∀ e ∈ toList db.store.entries,
            KeyedRow (CStr.lit "public") (CStr.lit "t") schema e))) =
      some ([[CStr.lit "2", CStr.lit "a"], [CStr.lit "2", CStr.lit "b"]], false) := by
    decide +kernel
  obtain ⟨db, hrun, hfound⟩ := Option.map_eq_some_iff.mp hview
  obtain ⟨hrows, hkeyed⟩ := Prod.mk.inj hfound
  refine ⟨db, hrun, hrows, fun hkeys => of_decide_eq_false hkeyed ?_⟩
  intro schema hschema e hmem
  obtain ⟨i, hi⟩ := mem_toList.mp hmem
  exact (hkeys _ _ (by decide) (by decide) schema hschema).keyed i e hi

end Executor
end InventixDB
