import InventixDB.Backup.Files
import InventixDB.Executor.PrimaryKeys
import Mathlib.Algebra.Order.BigOperators.Group.List
import Mathlib.Algebra.Order.Group.Nat

/-!
# BinaryRoundTrip — a server backed up to a binary file and restored from it

The backup looks for schemas under `:SCHEMA:`, where the executor keeps none, and writes its rows
without the marker that the restore reads in front of every entry.  The first row is read with the
low byte of its key length as the marker and the `D` of its key as the top byte of the length, so
what is read as the first key is longer than a gigabyte.
-/

namespace InventixDB
namespace Backup

open Storage
open Executor
open Transaction
open Lib.ByteCodec
open Lib.OpenAddressing

variable {n m : Nat} [NeZero n] [NeZero m]

/-- The database of every session that names no other. -/
def publicDb : CStr := CStr.lit "public"

/-! ## What the table statements store -/

/-- An entry of the default database. -/
inductive TableEntry : CStr × Value → Prop
  | schema (t : CStr) (v : Value) (ht : Sql.isWord t = true)
      (hlen : (schemaKey publicDb t).length < 512) (htype : v.type = .schema) :
      TableEntry (schemaKey publicDb t, v)
  | counter (t : CStr) (v : Value) (ht : Sql.isWord t = true)
      (hlen : (counterKey publicDb t).length < 512) : TableEntry (counterKey publicDb t, v)
  | row (t pk : CStr) (v : Value) (ht : Sql.isWord t = true)
      (hlen : (rowKey publicDb t pk).length < 512) (htype : v.type = .row) :
      TableEntry (rowKey publicDb t pk, v)

def TableEntries (t : Table CStr Value n) : Prop :=
  ∀ i e, t i = some e → TableEntry e

omit [NeZero n] in
theorem tableEntries_empty : TableEntries (empty : Table CStr Value n) := by
  intro i e hentry
  cases hentry

theorem TableEntries.insert {t : Table CStr Value n} {key : CStr} {val : Value}
    (h : TableEntries t) (hnew : TableEntry (key, val)) :
    TableEntries (insert CStr.slot t key val) := by
  intro i e hentry
  rcases insert_slot hentry with hold | rfl
  · exact h i e hold
  · exact hnew

theorem TableEntries.erase {t : Table CStr Value n} (h : TableEntries t) (key : CStr) :
    TableEntries (erase CStr.slot t key) :=
  fun i e hentry => h i e (erase_slot hentry)

/-- A write that puts an entry of the default database, if it puts one at all. -/
def PutsTableEntry (_ : Db n) (w : Write) : Prop :=
  ∀ key val, w.call = .put key val → TableEntry (key, val)

section Statements

variable {db db' : Db n} {ctx : SessionContext} {tableName : CStr}

theorem TableEntries.chain (h : TableEntries db.store.entries)
    (hc : Chain PutsTableEntry db db') : TableEntries db'.store.entries := by
  induction hc with
  | done db => exact h
  | aside out indexes _ ih => exact ih h
  | @write db db' w hw _ ih =>
      refine ih ?_
      rw [store_apply, entries_exec]
      cases hcall : w.call with
      | put key val => exact h.insert (hw key val hcall)
      | delete key => exact h.erase key
      | get key => exact h
      | snapshot => exact h

theorem TableEntries.createTable {columns : List ColumnDef} (h : TableEntries db.store.entries)
    (hd : ctx.currentDb = publicDb) (ht : Sql.isWord tableName = true)
    (hexec : executeCreateTable db ctx tableName columns = some db') :
    TableEntries db'.store.entries := by
  refine h.chain (chain_createTable hexec ?_ ?_)
  · intro key schema hkey _ key' val hcall
    obtain ⟨rfl, hlen⟩ := CStr.sprintf_eq_some hkey
    cases hcall
    rw [hd] at hlen ⊢
    exact .schema tableName _ ht hlen rfl
  · intro key schema seqKey _ _ hkey key' val hcall
    obtain ⟨rfl, hlen⟩ := CStr.sprintf_eq_some hkey
    cases hcall
    rw [hd] at hlen ⊢
    exact .counter tableName _ ht hlen

theorem TableEntries.resolveId {id finalId : CStr} (h : TableEntries db.store.entries)
    (hd : ctx.currentDb = publicDb) (ht : Sql.isWord tableName = true)
    (hid : Executor.resolveId db ctx tableName id = some (finalId, db')) :
    TableEntries db'.store.entries := by
  rcases resolveId_cases hid with ⟨_, rfl⟩ | ⟨_, seqKey, val, hkey, rfl⟩
  · exact h
  · obtain ⟨rfl, hlen⟩ := CStr.sprintf_eq_some hkey
    change TableEntries (kvPut db.store _ val).entries
    rw [entries_kvPut]
    rw [hd] at hlen ⊢
    exact h.insert (.counter tableName val ht hlen)

/-- The key of a row that is inserted fits its buffer. -/
theorem length_rowKey_of_insertRow {schema : Option CStr} {state state' : Db n × Nat}
    {vals : List CStr} {id finalId : CStr} {moved : Db n}
    (hexec : insertRow ctx tableName schema state vals = some state')
    (hpk : vals[pkIndex schema]? = some id)
    (hid : Executor.resolveId state.1 ctx tableName id = some (finalId, moved)) :
    (rowKey ctx.currentDb tableName finalId).length < 512 := by
  obtain ⟨db, count⟩ := state
  unfold insertRow at hexec
  dsimp only at hexec
  rw [hpk] at hexec
  obtain ⟨r, hid', hexec⟩ := Option.bind_eq_some_iff.mp hexec
  cases hid.symm.trans hid'
  dsimp only at hexec
  obtain ⟨key, hkey, _⟩ := Option.bind_eq_some_iff.mp hexec
  exact (CStr.sprintf_eq_some hkey).2

theorem TableEntries.insertRow {schema : Option CStr} {state state' : Db n × Nat}
    {vals : List CStr} (h : TableEntries state.1.store.entries) (hd : ctx.currentDb = publicDb)
    (ht : Sql.isWord tableName = true)
    (hexec : Executor.insertRow ctx tableName schema state vals = some state') :
    TableEntries state'.1.store.entries := by
  cases insertRow_cases hexec with
  | missing _ hstore _ =>
      rw [hstore]
      exact h
  | duplicate id finalId moved old _ hid _ hstore _ =>
      rw [hstore]
      exact h.resolveId hd ht hid
  | stored id finalId moved data hpk hid _ _ hentries _ =>
      have hlen := length_rowKey_of_insertRow hexec hpk hid
      rw [hentries]
      rw [hd] at hlen ⊢
      exact (h.resolveId hd ht hid).insert (.row tableName finalId _ ht hlen rfl)

theorem TableEntries.insertStatement {rows : List (List CStr)} (h : TableEntries db.store.entries)
    (hd : ctx.currentDb = publicDb) (ht : Sql.isWord tableName = true)
    (hexec : executeInsert db ctx tableName rows = some db') :
    TableEntries db'.store.entries := by
  have hrows : ∀ {schema : Option CStr} {rows : List (List CStr)} {state state' : Db n × Nat},
      TableEntries state.1.store.entries →
      insertRows ctx tableName schema state rows = some state' →
      TableEntries state'.1.store.entries := by
    intro schema rows
    induction rows with
    | nil =>
        intro state state' h hexec
        cases hexec
        exact h
    | cons vals rows ih =>
        intro state state' h hexec
        obtain ⟨state₁, hone, hexec⟩ := Option.bind_eq_some_iff.mp hexec
        exact ih (h.insertRow hd ht hone) hexec
  unfold executeInsert at hexec
  by_cases hnil : rows = []
  · rw [if_pos hnil] at hexec
    cases hexec
    exact h
  · rw [if_neg hnil] at hexec
    obtain ⟨metaKey, _, hexec⟩ := Option.bind_eq_some_iff.mp hexec
    obtain ⟨schema, _, hexec⟩ := Option.bind_eq_some_iff.mp hexec
    obtain ⟨state, hins, hexec⟩ := Option.bind_eq_some_iff.mp hexec
    cases hexec
    exact hrows h hins

theorem TableEntries.delete {whereClause : Option ASTExpr} (h : TableEntries db.store.entries)
    (hexec : executeDelete db ctx tableName whereClause = some db') :
    TableEntries db'.store.entries := by
  refine h.chain (chain_delete hexec ?_ ?_)
  · intro id key old _ _ _ key' val hcall
    cases hcall
  · intro key _ key' val hcall
    cases hcall

theorem TableEntries.update {sets : List (CStr × CStr)} {whereClause : Option ASTExpr}
    (h : TableEntries db.store.entries) (hd : ctx.currentDb = publicDb)
    (ht : Sql.isWord tableName = true)
    (hexec : executeUpdate db ctx tableName sets whereClause = some db') :
    TableEntries db'.store.entries := by
  refine h.chain (chain_update hexec ?_)
  intro id key old row _ hkey _ _ key' val hcall
  obtain ⟨rfl, hlen⟩ := CStr.sprintf_eq_some hkey
  cases hcall
  rw [hd] at hlen ⊢
  exact .row tableName id _ ht hlen rfl

end Statements

theorem TableEntries.step {db db' : Db n} {ctx ctx' : SessionContext} {stmt : ASTNode}
    (h : TableEntries db.store.entries) (hd : ctx.currentDb = publicDb)
    (hstmt : isTableStatement stmt = true)
    (hexec : executeQuery db ctx stmt = some (db', ctx')) : TableEntries db'.store.entries := by
  cases stmt with
  | createTable tableName columns =>
      obtain ⟨_, hdone, heq⟩ := Option.map_eq_some_iff.mp hexec
      cases heq
      exact h.createTable hd hstmt hdone
  | insert tableName rows =>
      obtain ⟨_, hdone, heq⟩ := Option.map_eq_some_iff.mp hexec
      cases heq
      exact h.insertStatement hd hstmt hdone
  | delete tableName whereClause =>
      obtain ⟨_, hdone, heq⟩ := Option.map_eq_some_iff.mp hexec
      cases heq
      exact h.delete hdone
  | update tableName sets whereClause =>
      obtain ⟨_, hdone, heq⟩ := Option.map_eq_some_iff.mp hexec
      cases heq
      exact h.update hd hstmt hdone
  | _ => cases hstmt

theorem TableEntries.run {db db' : Db n} {steps : List (SessionContext × ASTNode)}
    (h : TableEntries db.store.entries)
    (hsteps : ∀ s ∈ steps, s.1.currentDb = publicDb ∧ isTableStatement s.2 = true)
    (hrun : runSteps db steps = some db') : TableEntries db'.store.entries := by
  induction steps generalizing db with
  | nil =>
      cases hrun
      exact h
  | cons s steps ih =>
      obtain ⟨r, hexec, hrun⟩ := Option.bind_eq_some_iff.mp hrun
      obtain ⟨hd, hstmt⟩ := hsteps s List.mem_cons_self
      exact ih (h.step hd hstmt hexec) (fun s' hs' => hsteps s' (List.mem_cons_of_mem s hs')) hrun

/-! ## Where the markers stand in a key -/

theorem isPrefixOf_eq_false {c : UInt8} {l sub : List UInt8} (hsub : c ∈ sub) (hc : c ∉ l) :
    sub.isPrefixOf l = false := by
  refine Bool.eq_false_iff.mpr fun hpre => hc ?_
  exact (List.isPrefixOf_iff_prefix.mp hpre).subset hsub

theorem find?_tails_eq_none {c : UInt8} {l sub : List UInt8} (hsub : c ∈ sub) (hc : c ∉ l) :
    l.tails.find? (fun t => sub.isPrefixOf t) = none := by
  rw [List.find?_eq_none]
  intro t ht
  have hsuffix : t <:+ l := (List.mem_tails t l).mp ht
  rw [isPrefixOf_eq_false hsub fun hmem => hc (hsuffix.subset hmem)]
  decide

theorem val_lit_db : (CStr.lit "DB:").val = [68, 66, 58] := by decide

theorem val_lit_tbl : (CStr.lit ":TBL:").val = [58, 84, 66, 76, 58] := by decide

theorem val_lit_schema : (CStr.lit ":SCHEMA:").val = [58, 83, 67, 72, 69, 77, 65, 58] := by decide

theorem val_publicDb : publicDb.val = [112, 117, 98, 108, 105, 99] := by decide

theorem val_rowKey_public (t pk : CStr) : (rowKey publicDb t pk).val =
    [68, 66, 58, 112, 117, 98, 108, 105, 99, 58, 84, 66, 76, 58] ++ (t.val ++ 58 :: pk.val) := by
  rw [val_rowKey, val_lit_db, val_publicDb]
  rfl

theorem val_schemaKey_public (t : CStr) : (schemaKey publicDb t).val =
    [68, 66, 58, 112, 117, 98, 108, 105, 99, 58, 77, 69, 84, 65, 58, 84, 66, 76, 58] ++ t.val := by
  rw [val_schemaKey, val_lit_db, val_publicDb]
  rfl

theorem val_counterKey_public (t : CStr) : (counterKey publicDb t).val =
    [68, 66, 58, 112, 117, 98, 108, 105, 99, 58, 83, 69, 81, 58] ++ t.val := by
  rw [val_counterKey, val_lit_db, val_publicDb]
  rfl

section Markers

variable {t : CStr}

theorem strstr_schema_schemaKey (ht : Sql.isWord t = true) :
    CStr.strstr (schemaKey publicDb t) (CStr.lit ":SCHEMA:") = none := by
  have hcolon := colon_notMem_of_isWord ht
  have hfirst : [83, 67, 72, 69, 77, 65, 58].isPrefixOf t.val = false :=
    isPrefixOf_eq_false (by decide) hcolon
  have hrest : t.val.tails.find? (fun s => [58, 83, 67, 72, 69, 77, 65, 58].isPrefixOf s) = none :=
    find?_tails_eq_none (by decide) hcolon
  unfold CStr.strstr
  rw [val_schemaKey_public, val_lit_schema]
  simp [List.isPrefixOf, hfirst, hrest]

theorem strstr_schema_counterKey (ht : Sql.isWord t = true) :
    CStr.strstr (counterKey publicDb t) (CStr.lit ":SCHEMA:") = none := by
  have hcolon := colon_notMem_of_isWord ht
  have hfirst : [83, 67, 72, 69, 77, 65, 58].isPrefixOf t.val = false :=
    isPrefixOf_eq_false (by decide) hcolon
  have hrest : t.val.tails.find? (fun s => [58, 83, 67, 72, 69, 77, 65, 58].isPrefixOf s) = none :=
    find?_tails_eq_none (by decide) hcolon
  unfold CStr.strstr
  rw [val_counterKey_public, val_lit_schema]
  simp [List.isPrefixOf, hfirst, hrest]

theorem strstr_tbl_counterKey (ht : Sql.isWord t = true) :
    CStr.strstr (counterKey publicDb t) (CStr.lit ":TBL:") = none := by
  have hcolon := colon_notMem_of_isWord ht
  have hfirst : [84, 66, 76, 58].isPrefixOf t.val = false :=
    isPrefixOf_eq_false (by decide) hcolon
  have hrest : t.val.tails.find? (fun s => [58, 84, 66, 76, 58].isPrefixOf s) = none :=
    find?_tails_eq_none (by decide) hcolon
  unfold CStr.strstr
  rw [val_counterKey_public, val_lit_tbl]
  simp [List.isPrefixOf, hfirst, hrest]

theorem strstr_tbl_schemaKey (t : CStr) :
    CStr.strstr (schemaKey publicDb t) (CStr.lit ":TBL:") =
      some ([58, 84, 66, 76, 58] ++ t.val) := by
  unfold CStr.strstr
  rw [val_schemaKey_public, val_lit_tbl]
  simp [List.isPrefixOf]

theorem strstr_tbl_rowKey (t pk : CStr) :
    CStr.strstr (rowKey publicDb t pk) (CStr.lit ":TBL:") =
      some ([58, 84, 66, 76, 58] ++ (t.val ++ 58 :: pk.val)) := by
  unfold CStr.strstr
  rw [val_rowKey_public, val_lit_tbl]
  simp [List.isPrefixOf]

/-- A key that starts with `DB:` is found to do so. -/
theorem strstr_db {key : CStr} {rest : List UInt8} (hkey : key.val = [68, 66, 58] ++ rest) :
    CStr.strstr key (CStr.lit "DB:") = some key.val := by
  unfold CStr.strstr
  rw [hkey, val_lit_db]
  simp [List.isPrefixOf]

end Markers

/-! ## What a backup writes -/

/-- A row of the default database. -/
def isPublicRow (e : CStr × Value) : Bool :=
  CStr.startsWith (CStr.lit "DB:public:TBL:") e.1 && e.2.type = .row

theorem val_lit_row : (CStr.lit "DB:public:TBL:").val =
    [68, 66, 58, 112, 117, 98, 108, 105, 99, 58, 84, 66, 76, 58] := by decide

theorem isPublicRow_rowKey (t pk : CStr) {v : Value} (htype : v.type = .row) :
    isPublicRow (rowKey publicDb t pk, v) = true := by
  have hpre : CStr.startsWith (CStr.lit "DB:public:TBL:") (rowKey publicDb t pk) = true := by
    unfold CStr.startsWith
    rw [List.isPrefixOf_iff_prefix, val_rowKey_public, val_lit_row]
    exact List.prefix_append _ _
  rw [isPublicRow, hpre, htype]
  rfl

theorem isPublicRow_schemaKey (t : CStr) (v : Value) :
    isPublicRow (schemaKey publicDb t, v) = false := by
  unfold isPublicRow CStr.startsWith
  rw [val_schemaKey_public, val_lit_row]
  simp [List.isPrefixOf]

theorem isPublicRow_counterKey (t : CStr) (v : Value) :
    isPublicRow (counterKey publicDb t, v) = false := by
  unfold isPublicRow CStr.startsWith
  rw [val_counterKey_public, val_lit_row]
  simp [List.isPrefixOf]

/-- The rows of a store, in slot order. -/
def publicRows (store : KVStore n) : List (CStr × Value) :=
  (toList store.entries).filter isPublicRow

theorem schemaCallback_tableEntry {e : CStr × Value} (he : TableEntry e) (ctx : BackupContext) :
    backupSchemaCallback backupOptionsInit e.1 e.2 ctx = some ctx := by
  unfold backupSchemaCallback
  cases he with
  | schema t v ht _ _ => rw [strstr_schema_schemaKey ht]
  | counter t v ht _ => rw [strstr_schema_counterKey ht]
  | row t pk v _ _ htype =>
      -- a row identifier may hold the marker, but the value is a row
      dsimp only
      split
      · rw [if_neg (by rw [htype]; decide)]
      · rfl

theorem nameBefore_of_colon {s : List UInt8} {a b : CStr} (hs : s = a.val ++ 58 :: b.val)
    (ha : 58 ∉ a.val) (hlen : a.length < 64) : nameBefore s = some (a, b) := by
  have hnul : 0 ∉ s := by
    rw [hs, List.mem_append, List.mem_cons]
    rintro (hmem | heq | hmem)
    · exact a.property hmem
    · cases heq
    · exact b.property hmem
  have hbreak : CStr.breakAt 58 (CStr.ofBytes s) = some (a, b) := by
    refine CStr.breakAt_eq_some ?_ ha
    rw [CStr.ofBytes_of_notMem hnul, hs]
  rw [nameBefore, hbreak]
  dsimp only
  rw [CStr.sprintf, if_pos hlen]
  rfl

theorem nameBefore_of_notMem {s : CStr} (hs : 58 ∉ s.val) :
    nameBefore s.val = some (CStr.lit "", CStr.lit "") := by
  rw [nameBefore, CStr.ofBytes_val, CStr.breakAt, if_neg hs]

theorem keyNames_schemaKey {t : CStr} (ht : Sql.isWord t = true)
    (hlen : (schemaKey publicDb t).length < 512) :
    ∃ names, keyNames (schemaKey publicDb t) = some (some names) := by
  have hdb : nameBefore ((schemaKey publicDb t).val.drop 3) =
      some (publicDb, CStr.lit "META:TBL:" ++ t) := by
    refine nameBefore_of_colon ?_ (by decide) (by decide)
    have hmeta : (CStr.lit "META:TBL:").val = [77, 69, 84, 65, 58, 84, 66, 76, 58] := by decide
    rw [val_schemaKey_public, CStr.val_append, hmeta, val_publicDb]
    rfl
  have htable : nameBefore (([58, 84, 66, 76, 58] ++ t.val).drop 5) =
      some (CStr.lit "", CStr.lit "") :=
    nameBefore_of_notMem (colon_notMem_of_isWord ht)
  unfold keyNames
  dsimp only
  rw [CStr.snprintf_of_lt hlen, strstr_db (val_schemaKey_public t), strstr_tbl_schemaKey]
  dsimp only
  rw [hdb, htable]
  exact ⟨_, rfl⟩

/-- The key of a schema has the marker of a row, and its value has not the type. -/
theorem scanCallback_of_not_row {e : CStr × Value} (he : TableEntry e)
    (hrow : isPublicRow e = false) (ctx : BackupContext) :
    backupScanCallback backupOptionsInit e.1 e.2 ctx = some ctx := by
  unfold backupScanCallback
  cases he with
  | schema t v ht hlen htype =>
      obtain ⟨names, hnames⟩ := keyNames_schemaKey ht hlen
      rw [hnames]
      dsimp only [Option.bind_some]
      rw [htype, Bool.and_comm]
      rfl
  | counter t v ht hlen =>
      have hnames : keyNames (counterKey publicDb t) = some none := by
        unfold keyNames
        dsimp only
        rw [CStr.snprintf_of_lt hlen, strstr_tbl_counterKey ht]
        split <;> simp_all
      rw [hnames]
      rfl
  | row t pk v _ _ htype =>
      rw [isPublicRow_rowKey t pk htype] at hrow
      cases hrow

theorem scanCallback_of_row {e : CStr × Value} (he : TableEntry e) (hrow : isPublicRow e = true)
    {ctx ctx' : BackupContext}
    (hexec : backupScanCallback backupOptionsInit e.1 e.2 ctx = some ctx') :
    ctx'.file = ctx.file ++ recordBytes e.1 e.2.data := by
  unfold backupScanCallback at hexec
  obtain ⟨found, hfound, hexec⟩ := Option.bind_eq_some_iff.mp hexec
  cases he with
  | schema t v =>
      rw [isPublicRow_schemaKey] at hrow
      cases hrow
  | counter t v =>
      rw [isPublicRow_counterKey] at hrow
      cases hrow
  | row t pk v _ hlen htype =>
      cases found with
      | none =>
          unfold keyNames at hfound
          dsimp only at hfound
          rw [CStr.snprintf_of_lt hlen, strstr_db (val_rowKey_public t pk),
            strstr_tbl_rowKey] at hfound
          dsimp only at hfound
          split at hfound <;> cases hfound
      | some names =>
          dsimp only at hexec
          have hselects : (backupOptionsInit.selects names.dbName names.tableName &&
              decide (v.type = .row)) = true := by
            rw [htype]
            rfl
          rw [if_pos hselects] at hexec
          obtain ⟨bs, hbs, rfl⟩ := Option.map_eq_some_iff.mp hexec
          cases hbs
          rfl

section Files

variable {store : KVStore n} {now : UInt64} {ctime : CStr}

omit [NeZero n] in
/-- A full backup: the schemas, then the rows. -/
theorem backupDatabase_init :
    backupDatabase store backupOptionsInit now ctime =
      ((backupPass store (backupSchemaCallback backupOptionsInit)
          { file := backupHeader backupOptionsInit now, firstRow := true }).bind
        fun ctx => (backupPass store (backupScanCallback backupOptionsInit) ctx).bind
          fun ctx => some (ctx.file ++ [255])) := rfl

omit [NeZero n] in
theorem TableEntries.of_mem (h : TableEntries store.entries) :
    ∀ e ∈ toList store.entries, TableEntry e := by
  intro e hmem
  obtain ⟨i, hi⟩ := mem_toList.mp hmem
  exact h i e hi

omit [NeZero n] in
theorem schemaPass (h : TableEntries store.entries) (ctx : BackupContext) :
    backupPass store (backupSchemaCallback backupOptionsInit) ctx = some ctx := by
  rw [backupPass_eq_foldl]
  exact foldl_bind_of_skip fun e hmem ctx => schemaCallback_tableEntry (h.of_mem e hmem) ctx

omit [NeZero n] in
/-- A record for each row, and no schema. -/
theorem file_backupDatabase {file : List UInt8} (h : TableEntries store.entries)
    (hfile : backupDatabase store backupOptionsInit now ctime = some file) :
    file = backupHeader backupOptionsInit now ++
      ((publicRows store).flatMap (fun e => recordBytes e.1 e.2.data) ++ [255]) := by
  rw [backupDatabase_init, schemaPass h, Option.bind_some] at hfile
  obtain ⟨ctx, hrows, hfile⟩ := Option.bind_eq_some_iff.mp hfile
  cases hfile
  rw [backupPass_eq_foldl] at hrows
  have hctx := file_foldl_bind
    (fun e hmem hrow ctx ctx' hexec => Option.some_inj.mp
      (hexec.symm.trans (scanCallback_of_not_row (h.of_mem e hmem) hrow ctx)))
    (fun e hmem hrow ctx ctx' hexec => scanCallback_of_row (h.of_mem e hmem) hrow hexec) hrows
  rw [hctx, List.append_assoc]
  rfl

omit [NeZero n] in
theorem backupDatabase_of_no_rows (h : TableEntries store.entries)
    (hnone : publicRows store = []) :
    backupDatabase store backupOptionsInit now ctime =
      some (backupHeader backupOptionsInit now ++ [255]) := by
  have hskip : ∀ e ∈ toList store.entries, isPublicRow e = false := by
    intro e hmem
    exact Bool.eq_false_iff.mpr (List.filter_eq_nil_iff.mp hnone e hmem)
  rw [backupDatabase_init, schemaPass h, Option.bind_some, backupPass_eq_foldl,
    foldl_bind_of_skip fun e hmem ctx =>
      scanCallback_of_not_row (h.of_mem e hmem) (hskip e hmem) ctx]
  rfl

end Files

/-! ## What a restore reads -/

/-- The bytes of the entry that a row is written as. -/
def weight (e : CStr × Value) : Nat :=
  if isPublicRow e then 9 + e.1.length + e.2.data.length else 0

theorem readSized_eq_some {bs data rest : List UInt8}
    (hread : readSized bs = some (some (data, rest))) :
    ∃ len bs', readLE 4 bs = some (len, bs') ∧ len ≤ bs'.length ∧ data = bs'.take len ∧
      rest = bs'.drop len := by
  unfold readSized at hread
  split at hread
  · cases hread
  · next len bs' hlen =>
      split at hread
      · cases hread
      · have hdata := Option.some_inj.mp hread
        unfold readExact at hdata
        split at hdata
        · next hle =>
            cases hdata
            exact ⟨len, bs', hlen, hle, rfl, rfl⟩
        · cases hdata

theorem length_readSized {bs data rest : List UInt8}
    (hread : readSized bs = some (some (data, rest))) :
    bs.length = 4 + data.length + rest.length := by
  obtain ⟨len, bs', hlen, hle, rfl, rfl⟩ := readSized_eq_some hread
  have hbs := length_readLE hlen
  rw [List.length_take, List.length_drop]
  dsimp only at hbs
  omega

/-- An entry is a marker, a key and a value. -/
theorem readEntry_eq_some {typeMarker : UInt8} {bs rest : List UInt8} {e : CStr × Value}
    (hread : readEntry (typeMarker :: bs) = some (some (e, rest))) :
    ∃ key bs' data, readSized bs = some (some (key, bs')) ∧
      readSized bs' = some (some (data, rest)) ∧ e.1 = CStr.ofBytes key ∧ e.2.data = data := by
  by_cases hend : typeMarker = 255
  · rw [readEntry, if_pos hend] at hread
    cases hread
  · rw [readEntry, if_neg hend] at hread
    obtain ⟨key, hkey, hread⟩ := Option.bind_eq_some_iff.mp hread
    cases key with
    | none => cases hread
    | some key =>
        obtain ⟨data, hdata, hentry⟩ := Option.map_eq_some_iff.mp hread
        cases data with
        | none => cases hentry
        | some data =>
            cases hentry
            exact ⟨key.1, key.2, data.1, hkey, hdata, rfl, rfl⟩

theorem length_readEntry {bs rest : List UInt8} {e : CStr × Value}
    (hread : readEntry bs = some (some (e, rest))) :
    9 + e.1.length + e.2.data.length + rest.length ≤ bs.length := by
  cases bs with
  | nil => cases hread
  | cons typeMarker bs =>
      obtain ⟨key, bs', data, hkey, hdata, hfirst, hsecond⟩ := readEntry_eq_some hread
      have hkeyLength := length_readSized hkey
      have hdataLength := length_readSized hdata
      have hcut := CStr.length_ofBytes_le key
      rw [hfirst, hsecond, List.length_cons]
      omega

theorem weight_le (e : CStr × Value) : weight e ≤ 9 + e.1.length + e.2.data.length := by
  unfold weight
  split
  · exact Nat.le_refl _
  · exact Nat.zero_le _

/-- What a restore puts takes no more bytes than it reads. -/
theorem weight_restoreEntries {fuel : Nat} {bs : List UInt8} {store store' : KVStore n}
    (hrun : restoreEntries fuel bs store = some store') :
    ((toList store'.entries).map weight).sum ≤
      ((toList store.entries).map weight).sum + bs.length := by
  induction fuel generalizing bs store with
  | zero =>
      cases hrun
      exact Nat.le_add_right _ _
  | succ fuel ih =>
      obtain ⟨entry, hread, hrun⟩ := Option.bind_eq_some_iff.mp hrun
      cases entry with
      | none =>
          cases hrun
          exact Nat.le_add_right _ _
      | some r =>
          obtain ⟨e, rest⟩ := r
          have hrest := ih hrun
          have hput : ((toList (kvPut store e.1 e.2).entries).map weight).sum ≤
              weight e + ((toList store.entries).map weight).sum := by
            rw [entries_kvPut]
            exact sum_toList_insert_le weight
          have hlength := length_readEntry hread
          have hweight := weight_le e
          omega

theorem leNat_four (b₁ b₂ b₃ b₄ : UInt8) : leNat [b₁, b₂, b₃, b₄] =
    b₁.toNat + 256 * (b₂.toNat + 256 * (b₃.toNat + 256 * b₄.toNat)) := by
  simp [leNat]

/-- The low byte of a key length is read as a marker, and the first letter of the key as the top
byte of a length. -/
theorem readEntry_record {key : CStr} {data more rest tail : List UInt8} {e : CStr × Value}
    (hkey : key.val = 68 :: 66 :: tail) (hlen : key.length < 512)
    (hread : readEntry (recordBytes key data ++ more) = some (some (e, rest))) :
    isPublicRow e = false ∧
      0x44000000 + 9 + rest.length ≤ (recordBytes key data ++ more).length := by
  have hwhole : key.val.take (key.length % 2 ^ 32) = 68 :: 66 :: tail := by
    rw [Nat.mod_eq_of_lt (Nat.lt_trans hlen (by decide)), CStr.length, List.take_length, hkey]
  obtain ⟨b₀, b₁, b₂, b₃, hlength⟩ : ∃ b₀ b₁ b₂ b₃, leBytes 4 key.length = [b₀, b₁, b₂, b₃] :=
    ⟨_, _, _, _, rfl⟩
  obtain ⟨behind, hbytes⟩ : ∃ behind, recordBytes key data ++ more =
      b₀ :: b₁ :: b₂ :: b₃ :: 68 :: 66 :: behind := by
    rw [recordBytes, hwhole, hlength]
    exact ⟨_, rfl⟩
  rw [hbytes] at hread ⊢
  obtain ⟨key', bs', data', hfirst, hsecond, hkey', _⟩ := readEntry_eq_some hread
  have hdataLength := length_readSized hsecond
  obtain ⟨len, bs'', hle, hfits, rfl, rfl⟩ := readSized_eq_some hfirst
  have hread₄ : readLE 4 (b₁ :: b₂ :: b₃ :: 68 :: 66 :: behind) =
      some (leNat [b₁, b₂, b₃, 68], 66 :: behind) := by
    simp [readLE, readExact]
  rw [hread₄] at hle
  cases hle
  have hhuge : 0x44000000 ≤ leNat [b₁, b₂, b₃, 68] := by
    rw [leNat_four]
    change 0x44000000 ≤ b₁.toNat + 256 * (b₂.toNat + 256 * (b₃.toNat + 256 * 68))
    omega
  constructor
  · -- the key that is read lacks the first letter of every key
    have hletter : CStr.startsWith (CStr.lit "DB:public:TBL:") e.1 = false := by
      obtain ⟨len, hlen⟩ : ∃ len, leNat [b₁, b₂, b₃, 68] = len + 1 :=
        ⟨leNat [b₁, b₂, b₃, 68] - 1, by omega⟩
      have hval : e.1.val = 66 :: (behind.take len).takeWhile (· ≠ 0) := by
        rw [hkey', hlen, List.take_succ_cons]
        rfl
      unfold CStr.startsWith
      rw [hval, val_lit_row]
      rfl
    rw [isPublicRow, hletter]
    rfl
  · simp only [List.length_cons] at hfits ⊢
    rw [List.length_drop, List.length_cons] at hdataLength
    omega

theorem length_backupHeader (opts : BackupOptions) (now : UInt64) :
    (backupHeader opts now).length = 128 := by
  have hmagic : (CStr.lit "INVXBKP").val.length = 7 := by decide
  unfold backupHeader
  simp only [List.length_append, length_leBytes, List.length_replicate, List.length_singleton,
    hmagic]

theorem take_backupHeader (opts : BackupOptions) (now : UInt64) :
    (backupHeader opts now).take 7 = (CStr.lit "INVXBKP").val := by
  have hmagic : (CStr.lit "INVXBKP").val.length = 7 := by decide
  unfold backupHeader
  simp only [List.append_assoc]
  exact List.take_left' hmagic

/-- The header is read back, and the entries are what follows it. -/
theorem restoreDatabase_header (target : KVStore n) (opts : BackupOptions) (now : UInt64)
    (body : List UInt8) :
    restoreDatabase target (backupHeader opts now ++ body) =
      (restoreEntries body.length body target).map fun store => (true, store) := by
  have hread := readExact_append (backupHeader opts now) body
  rw [length_backupHeader] at hread
  rw [restoreDatabase, hread]
  dsimp only
  rw [if_pos (take_backupHeader opts now)]

/-! ## The round trip -/

section RoundTrip

/-- A server started on a store. -/
def serverOn (store : KVStore n) : Db n where
  store := store
  txnManager := txnManagerInit
  out := []
  calls := []

def isRowOf (tableName : CStr) (e : CStr × Value) : Bool :=
  CStr.startsWith (rowPrefix publicDb tableName) e.1 && e.2.type = .row

/-- The rows stored for a table. -/
def rowEntries (store : KVStore n) (tableName : CStr) : List (CStr × Value) :=
  (toList store.entries).filter (isRowOf tableName)

/-- The number the next `AUTO` of a table draws. -/
def nextAuto (db : Db n) (tableName : CStr) : Option Int :=
  (counterOf db (counterKey publicDb tableName) 0).bind nextInt

/-- Every table has the same schema, the same rows and the same next number. -/
structure SameTables (db : Db n) (db' : Db m) : Prop where
  schema : ∀ t, Sql.isWord t = true →
    kvGet db'.store (schemaKey publicDb t) = kvGet db.store (schemaKey publicDb t)
  rows : ∀ t, Sql.isWord t = true → (rowEntries db'.store t).Perm (rowEntries db.store t)
  next : ∀ t, Sql.isWord t = true → nextAuto db' t = nextAuto db t

/-- A full backup can be written and restored, and the server on the restored store has the same
tables. -/
def BinaryRoundTrips (db : Db n) (target : KVStore m) (now : UInt64) (ctime : CStr) : Prop :=
  ∃ file, backupDatabase db.store backupOptionsInit now ctime = some file ∧
    ∃ restored, restoreDatabase target file = some (true, restored) ∧
      SameTables db (serverOn restored)

/-- No table has a schema, a row, or a counter that has moved. -/
structure NothingStored (db : Db n) : Prop where
  schema : ∀ t, Sql.isWord t = true → kvGet db.store (schemaKey publicDb t) = none
  rows : ∀ t, Sql.isWord t = true → rowEntries db.store t = []
  counter : ∀ t, Sql.isWord t = true → counterOf db (counterKey publicDb t) 0 = some 0

variable {db : Db n} {target : KVStore m}

omit [NeZero n] in
theorem mem_rowEntries_rowKey {t pk : CStr} {v : Value}
    (hmem : (rowKey publicDb t pk, v) ∈ toList db.store.entries) (htype : v.type = .row) :
    (rowKey publicDb t pk, v) ∈ rowEntries db.store t := by
  refine List.mem_filter.mpr ⟨hmem, ?_⟩
  have hstarts : CStr.startsWith (rowPrefix publicDb t) (rowKey publicDb t pk) = true :=
    startsWith_rowPrefix_iff.mpr ⟨pk, rfl⟩
  rw [isRowOf, hstarts, htype]
  rfl

omit [NeZero n] in
theorem exists_rowKey (h : TableEntries db.store.entries) {e : CStr × Value}
    (hmem : e ∈ publicRows db.store) :
    ∃ t pk v, Sql.isWord t = true ∧ (rowKey publicDb t pk).length < 512 ∧ v.type = .row ∧
      e = (rowKey publicDb t pk, v) := by
  obtain ⟨hmem, hrow⟩ := List.mem_filter.mp hmem
  cases h.of_mem e hmem with
  | schema t v =>
      rw [isPublicRow_schemaKey] at hrow
      cases hrow
  | counter t v =>
      rw [isPublicRow_counterKey] at hrow
      cases hrow
  | row t pk v ht hlen htype => exact ⟨t, pk, v, ht, hlen, htype, rfl⟩

omit [NeZero n] in
/-- A row of the store is one of a table. -/
theorem exists_rowEntries (h : TableEntries db.store.entries) {e : CStr × Value}
    (hmem : e ∈ publicRows db.store) : ∃ t, Sql.isWord t = true ∧ e ∈ rowEntries db.store t := by
  obtain ⟨t, pk, v, ht, _, htype, rfl⟩ := exists_rowKey h hmem
  exact ⟨t, ht, mem_rowEntries_rowKey (List.mem_filter.mp hmem).1 htype⟩

omit [NeZero n] in
/-- The rows of a store are the rows of its tables. -/
theorem publicRows_eq_nil_iff (h : TableEntries db.store.entries) :
    publicRows db.store = [] ↔ ∀ t, Sql.isWord t = true → rowEntries db.store t = [] := by
  constructor
  · intro hnone t _
    refine List.filter_eq_nil_iff.mpr fun e hmem hrow => ?_
    obtain ⟨hstarts, htype⟩ := Bool.and_eq_true_iff.mp hrow
    obtain ⟨pk, hkey⟩ := startsWith_rowPrefix_iff.mp hstarts
    obtain ⟨key, v⟩ := e
    cases hkey
    exact List.filter_eq_nil_iff.mp hnone _ hmem
      (isPublicRow_rowKey t pk (of_decide_eq_true htype))
  · intro hnone
    refine List.eq_nil_iff_forall_not_mem.mpr fun e hmem => ?_
    obtain ⟨t, ht, hrow⟩ := exists_rowEntries h hmem
    rw [hnone t ht] at hrow
    cases hrow

theorem length_recordBytes_le {e : CStr × Value} (hrow : isPublicRow e = true) :
    (recordBytes e.1 e.2.data).length ≤ weight e := by
  rw [weight, if_pos hrow, recordBytes]
  simp only [List.length_append, length_leBytes, List.length_take, CStr.length]
  omega

theorem length_records_le {l : List (CStr × Value)} (hrows : ∀ e ∈ l, isPublicRow e = true) :
    (l.flatMap fun e => recordBytes e.1 e.2.data).length ≤ (l.map weight).sum := by
  induction l with
  | nil => exact Nat.le_refl 0
  | cons e l ih =>
      obtain ⟨hrow, hrows⟩ := List.forall_mem_cons.mp hrows
      rw [List.flatMap_cons, List.length_append, List.map_cons, List.sum_cons]
      exact Nat.add_le_add (length_recordBytes_le hrow) (ih hrows)

/-- A store with the same tables has all the rows. -/
theorem SameTables.sum_weight_le {restored : Db m} (hsame : SameTables db restored)
    (h : TableEntries db.store.entries) :
    ((publicRows db.store).map weight).sum ≤
      ((toList restored.store.entries).map weight).sum := by
  have hcount : ∀ e ∈ publicRows db.store,
      (publicRows db.store).count e ≤ (toList restored.store.entries).count e := by
    intro e hmem
    obtain ⟨t, ht, hrow⟩ := exists_rowEntries h hmem
    have hkind := (List.mem_filter.mp hrow).2
    calc (publicRows db.store).count e
        ≤ (toList db.store.entries).count e := List.filter_sublist.count_le e
      _ = (rowEntries db.store t).count e := (List.count_filter hkind).symm
      _ = (rowEntries restored.store t).count e := ((hsame.rows t ht).count_eq e).symm
      _ = (toList restored.store.entries).count e := List.count_filter hkind
  obtain ⟨l, hperm, hsub⟩ := List.subperm_ext_iff.mpr hcount
  rw [← (hperm.map weight).sum_nat]
  exact (hsub.map weight).sum_le_sum fun _ _ => Nat.zero_le _

omit [NeZero n] in
theorem toList_of_empty {store : KVStore n} (hempty : store.entries = empty) :
    toList store.entries = [] := by
  rw [hempty]
  unfold toList
  rw [List.filterMap_eq_nil_iff]
  exact fun _ _ => rfl

omit [NeZero n] in
theorem rowEntries_of_empty {store : KVStore n} (hempty : store.entries = empty) (t : CStr) :
    rowEntries store t = [] := by
  rw [rowEntries, toList_of_empty hempty]
  rfl

theorem kvGet_of_empty {store : KVStore n} (hempty : store.entries = empty) (key : CStr) :
    kvGet store key = none := by
  rw [kvGet, hempty, lookup_empty]

theorem counterOf_of_empty {store : KVStore n} (hempty : store.entries = empty) (key : CStr) :
    counterOf (serverOn store) key 0 = some 0 := by
  have hget : (serverOn store).get key = none := kvGet_of_empty hempty key
  rw [counterOf, hget]

/-- From a file that starts with a row either nothing is restored, or a first key of more than a
gigabyte is read. -/
theorem restoreEntries_record {key : CStr} {data more tail : List UInt8} {store' : KVStore m}
    (hkey : key.val = 68 :: 66 :: tail) (hlen : key.length < 512)
    (hempty : target.entries = empty) {fuel : Nat}
    (hrun : restoreEntries (fuel + 1) (recordBytes key data ++ more) target = some store') :
    store' = target ∨
      0x44000000 + ((toList store'.entries).map weight).sum ≤
        (recordBytes key data ++ more).length := by
  obtain ⟨entry, hread, hrun⟩ := Option.bind_eq_some_iff.mp hrun
  cases entry with
  | none =>
      cases hrun
      exact .inl rfl
  | some r =>
      obtain ⟨e, rest⟩ := r
      obtain ⟨hrow, hbytes⟩ := readEntry_record hkey hlen hread
      have hrest := weight_restoreEntries hrun
      have hput : ((toList (kvPut target e.1 e.2).entries).map weight).sum ≤ 0 := by
        rw [entries_kvPut]
        refine Nat.le_trans (sum_toList_insert_le weight) ?_
        rw [toList_of_empty hempty, weight, hrow]
        rfl
      right
      omega

/-- A store with a row is not restored. -/
theorem not_binaryRoundTrips_of_rows {now : UInt64} {ctime : CStr}
    (h : TableEntries db.store.entries) (hempty : target.entries = empty)
    (hrows : publicRows db.store ≠ []) : ¬ BinaryRoundTrips db target now ctime := by
  rintro ⟨file, hfile, restored, hrestored, hsame⟩
  rw [file_backupDatabase h hfile, restoreDatabase_header] at hrestored
  obtain ⟨store', hrun, heq⟩ := Option.map_eq_some_iff.mp hrestored
  cases heq
  have hsum := hsame.sum_weight_le h
  have hlength : ((publicRows db.store).flatMap fun e => recordBytes e.1 e.2.data).length ≤
      ((publicRows db.store).map weight).sum :=
    length_records_le fun e hmem => (List.mem_filter.mp hmem).2
  obtain ⟨e, rows, hlist⟩ := List.exists_cons_of_ne_nil hrows
  have hmem : e ∈ publicRows db.store := by
    rw [hlist]
    exact List.mem_cons_self
  obtain ⟨t, pk, v, _, hlen, _, rfl⟩ := exists_rowKey h hmem
  obtain ⟨t', ht', hrow⟩ := exists_rowEntries h hmem
  obtain ⟨more, hbody⟩ : ∃ more, (publicRows db.store).flatMap (fun e =>
      recordBytes e.1 e.2.data) ++ [255] = recordBytes (rowKey publicDb t pk) v.data ++ more := by
    rw [hlist, List.flatMap_cons, List.append_assoc]
    exact ⟨_, rfl⟩
  have hbytes := congrArg List.length hbody
  rw [List.length_append, List.length_singleton] at hbytes
  rw [hbody] at hrun
  obtain ⟨fuel, hfuel⟩ : ∃ fuel, (recordBytes (rowKey publicDb t pk) v.data ++ more).length =
      fuel + 1 := ⟨_, hbytes.symm⟩
  rw [hfuel] at hrun
  rcases restoreEntries_record (val_rowKey_public t pk) hlen hempty hrun with hnothing | hhuge
  · -- nothing is restored, and the table of the row has one
    have hperm := hsame.rows t' ht'
    rw [hnothing,
      show rowEntries (serverOn target).store t' = [] from rowEntries_of_empty hempty t',
      List.nil_perm] at hperm
    rw [hperm] at hrow
    cases hrow
  · change ((publicRows db.store).map weight).sum ≤ ((toList restored.entries).map weight).sum
      at hsum
    omega

theorem restoreDatabase_of_no_rows (target : KVStore m) (now : UInt64) :
    restoreDatabase target (backupHeader backupOptionsInit now ++ [255]) = some (true, target) := by
  rw [restoreDatabase_header]
  rfl

theorem nextInt_eq_one_iff {i : Int} : nextInt i = some 1 ↔ i = 0 := by
  unfold nextInt
  split
  · rw [Option.some_inj]
    omega
  · exact iff_of_false (by simp) (by omega)

/-- A store without tables has the tables of a database where nothing is stored. -/
theorem sameTables_empty_iff (h : TableEntries db.store.entries) (hempty : target.entries = empty) :
    publicRows db.store = [] ∧ SameTables db (serverOn target) ↔ NothingStored db := by
  have hone : ∀ t, nextAuto (serverOn target) t = some 1 := by
    intro t
    rw [nextAuto, counterOf_of_empty hempty]
    rfl
  constructor
  · rintro ⟨hnone, hsame⟩
    refine ⟨fun t ht => ?_, (publicRows_eq_nil_iff h).mp hnone, fun t ht => ?_⟩
    · rw [← hsame.schema t ht]
      exact kvGet_of_empty hempty _
    · have hnext := hsame.next t ht
      rw [hone] at hnext
      obtain ⟨i, hi, hnext⟩ := Option.bind_eq_some_iff.mp hnext.symm
      rw [hi, nextInt_eq_one_iff.mp hnext]
  · intro hnothing
    refine ⟨(publicRows_eq_nil_iff h).mpr hnothing.rows, fun t ht => ?_, fun t ht => ?_,
      fun t ht => ?_⟩
    · rw [hnothing.schema t ht]
      exact kvGet_of_empty hempty _
    · rw [hnothing.rows t ht]
      exact List.perm_nil.mpr (rowEntries_of_empty hempty t)
    · rw [hone, nextAuto, hnothing.counter t ht]
      rfl

/-- What the table statements store comes back from a full binary backup if and only if nothing is
stored. -/
theorem binaryRoundTrips_iff {steps : List (SessionContext × ASTNode)} {db : Db 1024}
    {target : KVStore m} {now : UInt64} {ctime : CStr}
    (hsteps : ∀ s ∈ steps, s.1.currentDb = publicDb ∧ isTableStatement s.2 = true)
    (hrun : runSteps serverInit steps = some db) (hempty : target.entries = empty) :
    BinaryRoundTrips db target now ctime ↔ NothingStored db := by
  have h : TableEntries db.store.entries :=
    TableEntries.run tableEntries_empty hsteps hrun
  rw [← sameTables_empty_iff h hempty]
  by_cases hrows : publicRows db.store = []
  · constructor
    · rintro ⟨file, hfile, restored, hrestored, hsame⟩
      rw [backupDatabase_of_no_rows h hrows] at hfile
      cases hfile
      rw [restoreDatabase_of_no_rows] at hrestored
      cases hrestored
      exact ⟨hrows, hsame⟩
    · rintro ⟨_, hsame⟩
      exact ⟨_, backupDatabase_of_no_rows h hrows, target, restoreDatabase_of_no_rows target now,
        hsame⟩
  · refine iff_of_false (not_binaryRoundTrips_of_rows h hempty hrows) ?_
    rintro ⟨hnone, _⟩
    exact hrows hnone

theorem binaryRoundTrips_newServer :
    BinaryRoundTrips serverInit defaultStore 0 (CStr.lit "") := by
  have hnothing : NothingStored serverInit :=
    { schema := fun t _ => kvGet_of_empty rfl _
      rows := fun t _ => rowEntries_of_empty rfl t
      counter := fun t _ => @counterOf_of_empty 1024 _ defaultStore rfl _ }
  exact (@binaryRoundTrips_iff 1024 _ [] serverInit defaultStore 0 _ (by decide) rfl rfl).mpr
    hnothing

/-- CREATE TABLE and one row. -/
def oneRowSteps : List (SessionContext × ASTNode) :=
  [.createTable (CStr.lit "t")
      [{ name := CStr.lit "id", type := CStr.lit "INT", isPk := true },
        { name := CStr.lit "v", type := CStr.lit "TEXT", isPk := false }],
    .insert (CStr.lit "t") [[CStr.lit "1", CStr.lit "a"]]].map fun stmt => (publicSession, stmt)

theorem binary_loses_row :
    ∃ db, runSteps serverInit oneRowSteps = some db ∧
      ¬ BinaryRoundTrips db defaultStore 0 (CStr.lit "") := by
  have hview : (runSteps serverInit oneRowSteps).map (fun db => decide (publicRows db.store = [])) =
      some false := by
    decide +kernel
  obtain ⟨db, hrun, hrows⟩ := Option.map_eq_some_iff.mp hview
  have h : TableEntries db.store.entries :=
    TableEntries.run tableEntries_empty (by decide) hrun
  exact ⟨db, hrun, not_binaryRoundTrips_of_rows h rfl (of_decide_eq_false hrows)⟩

end RoundTrip

end Backup
end InventixDB
