import InventixDB.Backup.Files
import InventixDB.Executor.Conditions
import InventixDB.Executor.PrimaryKeys

/-!
# CsvRoundTrip — a table exported to CSV and imported again

The export prints the bytes of a stored row as a text, up to their first zero byte, and the import
stores the text behind the third comma with a NUL.  No text with its NUL is a row of at most 1000
columns, so an import adds no row that could be read.
-/

namespace InventixDB
namespace Backup

open Storage
open Executor
open Lib.ByteCodec
open Lib.OpenAddressing

section RoundTrip

variable {n m : Nat} [NeZero n] [NeZero m]

/-- The rows a table is read as. -/
def tableRows (store : KVStore n) (database tableName : CStr) : List (List CStr) :=
  (toList store.entries).filterMap (tableRow database tableName)

/-- What was exported from one table is imported into another: they have the same rows then. -/
def CsvRoundTrips (source : KVStore n) (database tableName : CStr) (target : KVStore m)
    (database' tableName' : CStr) (now : UInt64) (ctime : CStr) : Prop :=
  ∃ file, backupExportTable source database tableName .csv now ctime = some file ∧
    ∀ row, row ∈ tableRows
        (restoreImportTable target (some database') (some tableName') file .csv).2
        database' tableName' ↔
      row ∈ tableRows source database tableName

/-! ## What an import adds -/

/-- A text with its NUL is no row: it is too short for a column count, or the count is too large. -/
theorem rowDeserialize_terminated (s : CStr) : rowDeserialize (s.val ++ [0]) = some none := by
  obtain ⟨bs, hbs⟩ := s
  -- the bytes of the text are positive
  have hpos : ∀ b ∈ bs, 0 < b.toNat := by
    intro b hb
    refine Nat.pos_of_ne_zero fun hzero => hbs ?_
    rwa [show b = 0 from UInt8.toNat_inj.mp hzero] at hb
  match bs, hpos with
  | [], _ => rfl
  | [_], _ => rfl
  | [_, _], _ => rfl
  | [a, b, c], hpos =>
      have hc := hpos c (by simp)
      have hcount : ¬ leNat [a, b, c, 0] ≤ 1000 := by
        simp only [leNat, List.foldr_cons, List.foldr_nil]
        omega
      exact if_neg hcount
  | a :: b :: c :: d :: rest, hpos =>
      have hd := hpos d (by simp)
      have hcount : ¬ leNat [a, b, c, d] ≤ 1000 := by
        simp only [leNat, List.foldr_cons, List.foldr_nil]
        omega
      have hread : readLE 4 ((a :: b :: c :: d :: rest) ++ [0]) =
          some (leNat [a, b, c, d], rest ++ [0]) := by
        simp [readLE, readExact]
      change rowDeserialize ((a :: b :: c :: d :: rest) ++ [0]) = _
      rw [rowDeserialize, hread]
      exact if_neg hcount

theorem data_importEntry {db table : Option CStr} {line : List UInt8} {e : CStr × Value}
    (hentry : importEntry db table line = some e) : ∃ s : CStr, e.2.data = s.val ++ [0] := by
  unfold importEntry at hentry
  dsimp only at hentry
  split at hentry
  · cases hentry
  · obtain ⟨useDb, _, hentry⟩ := Option.bind_eq_some_iff.mp hentry
    obtain ⟨useTable, _, hentry⟩ := Option.bind_eq_some_iff.mp hentry
    obtain ⟨id, _, hentry⟩ := Option.bind_eq_some_iff.mp hentry
    cases hentry
    exact ⟨_, rfl⟩

/-- An imported entry is no row of any table. -/
theorem tableRow_importEntry {db table : Option CStr} {line : List UInt8} {e : CStr × Value}
    (hentry : importEntry db table line = some e) (database tableName : CStr) :
    tableRow database tableName e = none := by
  obtain ⟨s, hs⟩ := data_importEntry hentry
  unfold tableRow
  rw [hs, rowDeserialize_terminated]
  split <;> rfl

omit [NeZero n] in
theorem tableRows_eq_nil_iff {store : KVStore n} {database tableName : CStr} :
    tableRows store database tableName = [] ↔
      ∀ i e, store.entries i = some e → tableRow database tableName e = none := by
  unfold tableRows
  rw [List.filterMap_eq_nil_iff]
  constructor
  · intro hall i e hentry
    exact hall e (mem_toList.mpr ⟨i, hentry⟩)
  · intro hall e hmem
    obtain ⟨i, hentry⟩ := mem_toList.mp hmem
    exact hall i e hentry

theorem tableRows_importLines {db table : Option CStr} {fuel : Nat} {bs : List UInt8}
    {store : KVStore n} {database tableName : CStr}
    (hnone : tableRows store database tableName = []) :
    tableRows (importLines db table fuel bs store) database tableName = [] := by
  induction fuel generalizing bs store with
  | zero => exact hnone
  | succ fuel ih =>
      unfold importLines
      split
      · exact hnone
      · split
        · exact ih hnone
        · next e hentry =>
            refine ih (tableRows_eq_nil_iff.mpr fun i e' hslot => ?_)
            rw [entries_kvPut] at hslot
            rcases insert_slot hslot with hold | rfl
            · exact tableRows_eq_nil_iff.mp hnone i e' hold
            · exact tableRow_importEntry hentry database tableName

/-- A table without rows that can be read has none after any import. -/
theorem tableRows_restoreImportTable {db table : Option CStr} {file : List UInt8}
    {format : BackupFormat} {store : KVStore n} {database tableName : CStr}
    (hnone : tableRows store database tableName = []) :
    tableRows (restoreImportTable store db table file format).2 database tableName = [] := by
  cases format with
  | csv => exact tableRows_importLines hnone
  | binary => exact hnone
  | sql => exact hnone
  | json => exact hnone

/-! ## When the export has a meaning -/

/-- The names in the key fit their buffers, and a value of the table has an end as a text. -/
def PrintableEntry (database tableName : CStr) (e : CStr × Value) : Prop :=
  ∃ found ∈ keyNames e.1, ∀ names ∈ found,
    names.dbName = database → names.tableName = tableName → e.2.type = .row → 0 ∈ e.2.data

instance instDecidablePrintableEntry (database tableName : CStr) (e : CStr × Value) :
    Decidable (PrintableEntry database tableName e) :=
  inferInstanceAs
    (Decidable (∃ found ∈ keyNames e.1, ∀ names ∈ found,
      names.dbName = database → names.tableName = tableName → e.2.type = .row → 0 ∈ e.2.data))

def Printable (store : KVStore n) (database tableName : CStr) : Prop :=
  ∀ e ∈ toList store.entries, PrintableEntry database tableName e

instance instDecidablePrintable (store : KVStore n) (database tableName : CStr) :
    Decidable (Printable store database tableName) :=
  inferInstanceAs (Decidable (∀ e ∈ toList store.entries, _))

/-- The options of an export to CSV. -/
def csvOptions (database tableName : CStr) : BackupOptions :=
  { backupOptionsInit with
    format := .csv
    specificDb := some database
    specificTable := some tableName
    includeSchema := false }

theorem isSome_scan_csv_iff (database tableName : CStr) (e : CStr × Value) (ctx : BackupContext) :
    (backupScanCallback (csvOptions database tableName) e.1 e.2 ctx).isSome ↔
      PrintableEntry database tableName e := by
  obtain ⟨key, val⟩ := e
  unfold backupScanCallback PrintableEntry
  cases keyNames key with
  | none => simp
  | some found =>
      cases found with
      | none => simp
      | some names =>
          have hselects : (csvOptions database tableName).selects names.dbName names.tableName =
              (decide (database = names.dbName) && decide (tableName = names.tableName)) := rfl
          have htext : (rowText (csvOptions database tableName) names ctx.firstRow key
              val.data).isSome ↔ 0 ∈ val.data := by
            change ((CStr.ofBuffer? val.data).map _).isSome ↔ _
            rw [Option.isSome_map, CStr.ofBuffer?]
            split <;> simp [*]
          simp only [Option.bind_some, Option.mem_some_iff, exists_eq_left', forall_eq', hselects]
          by_cases hrow : names.dbName = database ∧ names.tableName = tableName ∧ val.type = .row
          · obtain ⟨hdb, htable, htype⟩ := hrow
            simp [hdb, htable, htype, htext]
          · have hskip :
                (decide (database = names.dbName) && decide (tableName = names.tableName) &&
                decide (val.type = .row)) = false := by
              simp only [Bool.and_eq_false_iff, decide_eq_false_iff_not]
              tauto
            rw [hskip]
            simp only [Bool.false_eq_true, if_false, Option.isSome_some, true_iff]
            tauto

omit [NeZero n] in
theorem isSome_backupExportTable_iff (store : KVStore n) (database tableName : CStr)
    (now : UInt64) (ctime : CStr) :
    (backupExportTable store database tableName .csv now ctime).isSome ↔
      Printable store database tableName := by
  have hpass : ∀ ctx, (backupPass store (backupScanCallback (csvOptions database tableName))
      ctx).isSome ↔ Printable store database tableName :=
    isSome_backupPass_iff (isSome_scan_csv_iff database tableName)
  have hexport : backupExportTable store database tableName .csv now ctime =
      (backupPass store (backupScanCallback (csvOptions database tableName))
        { file := openingText (csvOptions database tableName) now ctime, firstRow := true }).bind
        fun ctx => some (ctx.file ++ closingText (csvOptions database tableName)) := rfl
  rw [hexport, ← hpass]
  cases backupPass store (backupScanCallback (csvOptions database tableName)) _ <;> rfl

omit [NeZero n] in
/-- A table comes back from its CSV file if and only if it has no row that can be read, and the
export of it has a meaning. -/
theorem csvRoundTrips_iff {source : KVStore n} {target : KVStore m}
    {database tableName database' tableName' ctime : CStr} {now : UInt64}
    (hempty : tableRows target database' tableName' = []) :
    CsvRoundTrips source database tableName target database' tableName' now ctime ↔
      tableRows source database tableName = [] ∧ Printable source database tableName := by
  have hexport := isSome_backupExportTable_iff source database tableName now ctime
  constructor
  · rintro ⟨file, hfile, hrows⟩
    rw [tableRows_restoreImportTable hempty] at hrows
    refine ⟨List.eq_nil_iff_forall_not_mem.mpr fun row hrow => ?_, hexport.mp (by rw [hfile]; rfl)⟩
    cases (hrows row).mpr hrow
  · rintro ⟨hnone, hprint⟩
    obtain ⟨file, hfile⟩ := Option.isSome_iff_exists.mp (hexport.mpr hprint)
    refine ⟨file, hfile, fun row => ?_⟩
    rw [tableRows_restoreImportTable hempty, hnone]

end RoundTrip

/-- The entries of a table `t` with the columns `id` and `v`. -/
def newTableStore : KVStore 1024 :=
  kvPut defaultStore (schemaKey (CStr.lit "public") (CStr.lit "t"))
    { data := (CStr.lit "id:INT:PK;v:TEXT;").val ++ [0], type := .schema }

theorem csvRoundTrips_newTable :
    CsvRoundTrips newTableStore (CStr.lit "public") (CStr.lit "t") defaultStore
      (CStr.lit "public") (CStr.lit "t") 0 (CStr.lit "") := by
  exact (csvRoundTrips_iff (by decide +kernel)).mpr ⟨by decide +kernel, by decide +kernel⟩

/-- The same table with one row. -/
def oneRowStore : KVStore 1024 :=
  kvPut newTableStore (rowKey (CStr.lit "public") (CStr.lit "t") (CStr.lit "1"))
    { data := (rowSerialize [CStr.lit "1", CStr.lit "a"]).getD [], type := .row }

/-- The row is in the table that was exported, and in none that the file is imported into. -/
theorem csv_loses_row :
    tableRows oneRowStore (CStr.lit "public") (CStr.lit "t") = [[CStr.lit "1", CStr.lit "a"]] ∧
      ¬ CsvRoundTrips oneRowStore (CStr.lit "public") (CStr.lit "t") defaultStore
        (CStr.lit "public") (CStr.lit "t") 0 (CStr.lit "") := by
  have hrows : tableRows oneRowStore (CStr.lit "public") (CStr.lit "t") =
      [[CStr.lit "1", CStr.lit "a"]] := by decide +kernel
  have hempty : tableRows defaultStore (CStr.lit "public") (CStr.lit "t") = [] := by
    decide +kernel
  refine ⟨hrows, ?_⟩
  rintro ⟨file, _, hsame⟩
  rw [hrows, tableRows_restoreImportTable hempty] at hsame
  cases (hsame _).mpr List.mem_cons_self

end Backup
end InventixDB
