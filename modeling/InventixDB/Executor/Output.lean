import InventixDB.Executor.ResultSet
import InventixDB.Executor.Select

/-!
# Output — the table a SELECT prints

Without ORDER BY and LIMIT a SELECT prints each row as its scan finds it, or its groups after the
scan.  With one of them it buffers the rows in a result set, which it sorts, cuts to a page and
prints.  The two modes set their columns up in different ways.
-/

namespace InventixDB
namespace Executor

open Storage
open Sql
open Transaction

variable {n : Nat} [NeZero n]

/-! ## Projections -/

/-- A column of the select list; a name the table does not have gets the index 999. -/
structure ProjectedColumn where
  index : Nat
  name : CStr
  funcType : FuncType
  deriving DecidableEq

/-- What `execute_select` works out from the schema.  No projection stands for all columns, and
`grouping` is the column of the groups, `some none` for one group of all rows. -/
structure SelectView where
  columns : List ScanColumn
  projection : List ProjectedColumn
  grouping : Option (Option Nat)
  message : Option CStr
  deriving DecidableEq

def projectedColumn (columns : List ScanColumn) (column : SelectColumn) : ProjectedColumn :=
  if column.value = CStr.lit "*" ∧ column.funcType = .count then
    { index := 0, name := CStr.lit "COUNT(*)", funcType := .count }
  else
    { index := (getColIndex columns column.value).getD 999
      name := column.value
      funcType := column.funcType }

/-- The projection of a select list; `*` in front takes all columns. -/
def projectionOf (columns : List ScanColumn) : List SelectColumn → List ProjectedColumn
  | [] => []
  | first :: rest =>
      if first.value = CStr.lit "*" ∧ first.funcType = .none then []
      else (first :: rest).map (projectedColumn columns)

/-- Grouping and its error message; aggregates without GROUP BY form one group. -/
def groupingOf (columns : List ScanColumn) (projection : List ProjectedColumn)
    (groupBy : Option CStr) : Option (Option Nat) × Option CStr :=
  match groupBy with
  | some name =>
      match getColIndex columns name with
      | some found => (some (some found), none)
      | none =>
          (none, some (CStr.lit "Error: Unknown Group By column '" ++ name ++ CStr.lit "'\n"))
  | none => (if projection.any fun column => column.funcType ≠ .none then some none else none, none)

/-- Only a value of type SCHEMA is looked at. -/
def selectView (schemaVal : Value) (columns : List ScanColumn) (clauses : SelectClauses) :
    SelectView :=
  if schemaVal.type = .schema then
    let projection := projectionOf columns clauses.columns
    { columns := columns
      projection := projection
      grouping := (groupingOf columns projection clauses.groupBy).1
      message := (groupingOf columns projection clauses.groupBy).2 }
  else { columns := [], projection := [], grouping := none, message := none }

/-- Names and types of the columns of the output. -/
def SelectView.resultColumns (view : SelectView) : List (CStr × Option CStr) :=
  if view.projection = [] then view.columns.map fun column => (column.name, column.type)
  else
    view.projection.map fun column =>
      (column.name, (view.columns[column.index]?).elim (some (CStr.lit "STRING")) ScanColumn.type)

/-- The values a row shows. -/
def SelectView.rowValues (view : SelectView) (tokens : List CStr) : List CStr :=
  if view.projection = [] then tokens
  else view.projection.map fun column => tokens[column.index]?.getD (CStr.lit "NULL")

/-! ## Cells -/

/-- `print_cell`: at most 15 characters, of which the last three are dots where there are more. -/
def printCell (str : CStr) : CStr :=
  let shown := (str.val.take 15).map fun c => if c = 10 then 32 else c
  CStr.ofBytes (if 15 < str.length then shown.take 12 ++ [46, 46, 46] else shown)

/-- A row of a result set, printed for `count` columns. -/
def printRow (count : Nat) (values : List CStr) : List CStr :=
  (List.range count).map fun i => printCell (values[i]?.getD (CStr.lit "NULL"))

/-! ## Groups -/

structure GroupBucket where
  key : CStr
  count : Nat
  sumVal : SignedDouble
  minVal : SignedDouble
  maxVal : SignedDouble
  deriving DecidableEq

def GroupBucket.init (key : CStr) : GroupBucket where
  key := key
  count := 0
  sumVal := .ofInt 0
  minVal := .ofInt 999999999
  maxVal := .ofInt (-999999999)

/-- The row counts, and its aggregated value if it has one. -/
def GroupBucket.take (b : GroupBucket) : Option SignedDouble → GroupBucket
  | none => { b with count := b.count + 1 }
  | some val =>
      { b with
        count := b.count + 1
        sumVal := b.sumVal.add val
        minVal := if val.value.lt b.minVal.value then val else b.minVal
        maxVal := if b.maxVal.value.lt val.value then val else b.maxVal }

/-- The value of the last aggregated column; a row that is too short is read behind its end. -/
def aggregatedValue (view : SelectView) (tokens : List CStr) : Option (Option SignedDouble) :=
  view.projection.foldlM
    (fun val column =>
      if column.funcType ∈ [FuncType.sum, .avg, .max, .min] ∧ column.index < view.columns.length
      then (tokens[column.index]?).map fun cell => some (CStr.atofSigned cell)
      else some val) none

/-- The bucket of a key takes a row; a new one goes to the front. -/
def takeRow (groups : List GroupBucket) (key : CStr) (val : Option SignedDouble) :
    List GroupBucket :=
  match groups.findIdx? fun b => b.key = key with
  | some i => groups.modify i fun b => b.take val
  | none => (GroupBucket.init key).take val :: groups

/-- `update_bucket` -/
def updateBucket (view : SelectView) (groupCol : Option Nat) (groups : List GroupBucket)
    (tokens : List CStr) : Option (List GroupBucket) :=
  let key := (groupCol.bind fun i => tokens[i]?).getD (CStr.lit "ALL")
  (aggregatedValue view tokens).map (takeRow groups key)

/-- The text of one column of a group, in a buffer of 64 bytes where it is a number. -/
def groupText (groupCol : Option Nat) (b : GroupBucket) (column : ProjectedColumn) : Option CStr :=
  match column.funcType with
  | .count => some (CStr.ofInt b.count)
  | .sum => CStr.sprintf 64 b.sumVal.toText
  | .avg =>
      if 0 < b.count then CStr.sprintf 64 (b.sumVal.divNat b.count).toText else some (CStr.lit "0")
  | .max => CStr.sprintf 64 b.maxVal.toText
  | .min => CStr.sprintf 64 b.minVal.toText
  | .none => some (if some column.index = groupCol then b.key else CStr.lit "...")

/-- `print_groups` -/
def printGroups (view : SelectView) (groupCol : Option Nat) (groups : List GroupBucket) :
    Option (List (List CStr)) :=
  groups.mapM fun b =>
    view.projection.mapM fun column => (groupText groupCol b column).map printCell

/-! ## The two modes -/

/-- What a SELECT prints; a name that is `NULL` is printed as such. -/
structure ResultPage where
  message : Option CStr
  header : List (Option CStr)
  rows : List (List CStr)
  deriving DecidableEq

/-- The rows printed without a result set. -/
def streamedRows (view : SelectView) (found : List (List CStr)) : Option (List (List CStr)) :=
  match view.grouping with
  | some groupCol =>
      (found.foldlM (updateBucket view groupCol) []).bind (printGroups view groupCol)
  | none => some (found.map fun tokens => (view.rowValues tokens).map printCell)

/-- The output without a result set. -/
def streamedPage (view : SelectView) (found : List (List CStr)) : Option ResultPage :=
  (streamedRows view found).map fun rows =>
    { message := view.message
      header := view.resultColumns.map fun column => some column.1
      rows := rows }

/-- The result set after the scan; the rows of a grouped query go to its buckets, which are not
printed in this mode. -/
def bufferRows (view : SelectView) (found : List (List CStr)) : Option ResultSet :=
  let rs := resultSetFor view.resultColumns
  match view.grouping with
  | some groupCol => (found.foldlM (updateBucket view groupCol) []).map fun _ => rs
  | none => some (found.foldl (fun rs tokens => resultSetAddRow rs (view.rowValues tokens)) rs)

/-- The output by way of a result set. -/
def bufferedPage (view : SelectView) (clauses : SelectClauses) (found : List (List CStr)) :
    Option ResultPage := do
  let rs ← bufferRows view found
  let specs ← clauses.orderColumns.mapM (sortSpec rs)
  let rs ← resultSetSortMulti rs specs
  let rs := resultSetLimit rs clauses.limit clauses.offset
  some
    { message := view.message
      header := rs.columnNames
      rows := rs.rows.map (printRow rs.columnNames.length) }

/-- `needs_buffering` -/
def needsBuffering (clauses : SelectClauses) : Bool :=
  clauses.orderColumns ≠ [] || 0 < clauses.limit

/-- The output of a query, once its scan has found its rows. -/
def outputOf (view : SelectView) (clauses : SelectClauses) (found : List (List CStr)) :
    Option ResultPage :=
  if needsBuffering clauses then bufferedPage view clauses found else streamedPage view found

/-- The value under the schema key of a table. -/
def schemaValue (store : KVStore n) (session : SessionContext) (tableName : CStr) : Option Value :=
  (sysGenerateKeySchema session.currentDb tableName).bind (kvGet store)

/-- The table a SELECT prints; the inner `none` is a table that does not exist. -/
def selectOutput (store : KVStore n) (session : SessionContext) (stmt : SelectStmt) :
    Option (Option ResultPage) := do
  match ← executeSelect store session stmt with
  | none => some none
  | some run =>
      let schemaVal ← schemaValue store session stmt.clauses.tableName
      let view := selectView schemaVal run.scan.columns stmt.clauses
      (outputOf view stmt.clauses run.rows).map some

/-! ## Set-up -/

/-- Output without columns is of all columns, and has no groups. -/
theorem selectView_of_no_columns {schemaVal : Value} {columns : List ScanColumn}
    {clauses : SelectClauses} (hnone : (selectView schemaVal columns clauses).resultColumns = []) :
    (selectView schemaVal columns clauses).projection = [] ∧
      (selectView schemaVal columns clauses).grouping = none := by
  unfold selectView at hnone ⊢
  split at hnone
  · next hschema =>
      rw [if_pos hschema]
      dsimp only
      by_cases hall : projectionOf columns clauses.columns = []
      · rw [SelectView.resultColumns, if_pos hall, List.map_eq_nil_iff] at hnone
        dsimp only at hnone
        refine ⟨hall, ?_⟩
        rw [hall, hnone]
        cases hgroup : clauses.groupBy with
        | none => rfl
        | some name => rfl
      · rw [SelectView.resultColumns, if_neg hall, List.map_eq_nil_iff] at hnone
        exact absurd hnone hall
  · next hschema =>
      rw [if_neg hschema]
      exact ⟨rfl, rfl⟩

/-! ## Streamed output -/

theorem takeRow_ne_nil (groups : List GroupBucket) (key : CStr) (val : Option SignedDouble) :
    takeRow groups key val ≠ [] := by
  unfold takeRow
  split
  · next i hfound =>
      intro hnil
      have hlen := congrArg List.length hnil
      rw [List.length_modify, List.length_nil, List.length_eq_zero_iff] at hlen
      rw [hlen] at hfound
      cases hfound
  · exact List.cons_ne_nil _ _

/-- There are groups if and only if there are rows. -/
theorem buckets_eq_nil_iff {view : SelectView} {groupCol : Option Nat}
    {found : List (List CStr)} {before groups : List GroupBucket}
    (hgroups : found.foldlM (updateBucket view groupCol) before = some groups) :
    groups = [] ↔ before = [] ∧ found = [] := by
  induction found generalizing before with
  | nil =>
      cases hgroups
      simp
  | cons tokens found ih =>
      rw [List.foldlM_cons] at hgroups
      obtain ⟨after, hafter, hgroups⟩ := Option.bind_eq_some_iff.mp hgroups
      obtain ⟨val, _, rfl⟩ := Option.map_eq_some_iff.mp hafter
      rw [ih hgroups]
      simp [takeRow_ne_nil]

theorem printGroups_eq_nil_iff {view : SelectView} {groupCol : Option Nat}
    {groups : List GroupBucket} {rows : List (List CStr)}
    (hrows : printGroups view groupCol groups = some rows) : rows = [] ↔ groups = [] := by
  cases groups with
  | nil =>
      cases hrows
      simp
  | cons b groups =>
      rw [printGroups, List.mapM_cons] at hrows
      obtain ⟨row, _, hrows⟩ := Option.bind_eq_some_iff.mp hrows
      obtain ⟨rest, _, hrows⟩ := Option.bind_eq_some_iff.mp hrows
      cases hrows
      simp

/-- Streamed output has the columns of the query, and a row if and only if the scan finds one. -/
theorem streamedPage_eq_some {view : SelectView} {found : List (List CStr)} {page : ResultPage}
    (hpage : streamedPage view found = some page) :
    page.header = (view.resultColumns.map fun column => some column.1) ∧
      (page.rows = [] ↔ found = []) := by
  obtain ⟨rows, hrows, rfl⟩ := Option.map_eq_some_iff.mp hpage
  refine ⟨rfl, ?_⟩
  dsimp only
  unfold streamedRows at hrows
  cases hgrouping : view.grouping with
  | none =>
      rw [hgrouping] at hrows
      cases hrows
      exact List.map_eq_nil_iff
  | some groupCol =>
      rw [hgrouping] at hrows
      obtain ⟨groups, hgroups, hrows⟩ := Option.bind_eq_some_iff.mp hrows
      rw [printGroups_eq_nil_iff hrows, buckets_eq_nil_iff hgroups]
      simp

/-! ## Buffered output -/

theorem addRows_eq (view : SelectView) (found : List (List CStr)) (rs : ResultSet) :
    found.foldl (fun rs tokens => resultSetAddRow rs (view.rowValues tokens)) rs =
      { rs with rows := rs.rows ++ (found.map view.rowValues).filter (· ≠ []) } := by
  induction found generalizing rs with
  | nil => simp
  | cons tokens found ih =>
      rw [List.foldl_cons, ih, resultSetAddRow]
      by_cases hempty : view.rowValues tokens = []
      · simp [hempty]
      · simp [hempty]

/-- The buffered rows of a query that is not grouped are those with a value. -/
theorem bufferRows_of_ungrouped {view : SelectView} (hgrouping : view.grouping = none)
    (found : List (List CStr)) :
    bufferRows view found =
      some { resultSetFor view.resultColumns with
        rows := (found.map view.rowValues).filter (· ≠ []) } := by
  rw [bufferRows, hgrouping]
  dsimp only
  rw [addRows_eq, rows_resultSetFor, List.nil_append]

/-- Only rows are added to a result set. -/
theorem columnNames_bufferRows {view : SelectView} {found : List (List CStr)} {rs : ResultSet}
    (hrows : bufferRows view found = some rs) :
    rs.columnNames = (resultSetFor view.resultColumns).columnNames := by
  cases hgrouping : view.grouping with
  | none =>
      rw [bufferRows_of_ungrouped hgrouping] at hrows
      cases hrows
      rfl
  | some groupCol =>
      rw [bufferRows, hgrouping] at hrows
      obtain ⟨groups, _, rfl⟩ := Option.map_eq_some_iff.mp hrows
      rfl

/-- Buffered output is a page of a rearrangement of the buffered rows. -/
theorem bufferedPage_eq_some {view : SelectView} {clauses : SelectClauses}
    {found : List (List CStr)} {page : ResultPage}
    (hpage : bufferedPage view clauses found = some page) :
    ∃ rs sorted, bufferRows view found = some rs ∧ sorted.columnNames = rs.columnNames ∧
      sorted.rows.Perm rs.rows ∧
      page.header = (resultSetFor view.resultColumns).columnNames ∧
      page.rows = (resultSetLimit sorted clauses.limit clauses.offset).rows.map
        (printRow (resultSetFor view.resultColumns).columnNames.length) := by
  obtain ⟨rs, hrs, hpage⟩ := Option.bind_eq_some_iff.mp hpage
  obtain ⟨specs, _, hpage⟩ := Option.bind_eq_some_iff.mp hpage
  obtain ⟨sorted, hsorted, hpage⟩ := Option.bind_eq_some_iff.mp hpage
  cases hpage
  obtain ⟨hnames, hperm⟩ := resultSetSortMulti_eq_some hsorted
  have hcolumns := columnNames_bufferRows hrs
  refine ⟨rs, sorted, hrs, hnames, hperm, ?_, ?_⟩
  · rw [columnNames_resultSetLimit, hnames, hcolumns]
  · rw [columnNames_resultSetLimit, hnames, hcolumns]

end Executor
end InventixDB
