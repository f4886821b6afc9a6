import InventixDB.Executor.Output

/-!
# Subqueries — a scalar subquery and the literal in its place

The pass in front of a SELECT answers a subquery on the right of the topmost operator, and looks no
deeper.  The scan that answers it knows no column types, stops at the first row that it finds, and
of the clauses reads only the first column of the list.
-/

namespace InventixDB
namespace Executor

open Lib.OpenAddressing
open Storage
open Sql
open Transaction

variable {n : Nat} [NeZero n]

/-! ## What a SELECT outputs first -/

/-- The values of the rows that are printed, before `print_cell` cuts them. -/
def outputValues (view : SelectView) (clauses : SelectClauses) (found : List (List CStr)) :
    Option (List (List CStr)) :=
  if needsBuffering clauses then do
    let rs ← bufferRows view found
    let specs ← clauses.orderColumns.mapM (sortSpec rs)
    let rs ← resultSetSortMulti rs specs
    some (resultSetLimit rs clauses.limit clauses.offset).rows
  else
    match view.grouping with
    | some groupCol => do
        let groups ← found.foldlM (updateBucket view groupCol) []
        groups.mapM fun b => view.projection.mapM (groupText groupCol b)
    | none => some (found.map view.rowValues)

/-- How a row of values is printed. -/
def printed (view : SelectView) (clauses : SelectClauses) : List CStr → List CStr :=
  if needsBuffering clauses then printRow (resultSetFor view.resultColumns).columnNames.length
  else List.map printCell

/-- The first value of the output, `NULL` if it has none. -/
def firstValue (rows : List (List CStr)) : CStr :=
  (rows.head?.bind List.head?).getD (CStr.lit "NULL")

/-- What a SELECT outputs first; the inner `none` is a table that does not exist. -/
def firstOutput (store : KVStore n) (session : SessionContext) (stmt : SelectStmt) :
    Option (Option CStr) := do
  match ← executeSelect store session stmt with
  | none => some none
  | some run =>
      let schemaVal ← schemaValue store session stmt.clauses.tableName
      let view := selectView schemaVal run.scan.columns stmt.clauses
      let rows ← outputValues view stmt.clauses run.rows
      some (some (firstValue rows))

/-- The tree with a literal for each subquery: what its SELECT outputs first. -/
def withLiterals (store : KVStore n) (session : SessionContext) : Expr → Option Expr
  | .binary left op right => do
      let left ← withLiterals store session left
      let right ← withLiterals store session right
      some (.binary left op right)
  | .subquery clauses whereClause =>
      (firstOutput store session { clauses := clauses, whereClause := whereClause }).join.map
        .literal
  | cond => some cond

/-- The rows are those of the tree with literals. -/
def ReadsLiterals (store : KVStore n) (session : SessionContext) (stmt : SelectStmt) : Prop :=
  ∀ cond ∈ stmt.whereClause, ∀ tree ∈ withLiterals store session cond,
    ∀ run ∈ executeSelect store session { stmt with whereClause := some tree },
      (executeSelect store session stmt).map (Option.map SelectRun.rows) =
        some (run.map SelectRun.rows)

theorem mapM_map_eq {α β γ : Type*} (f : α → Option β) (g : β → γ) (l : List α) :
    (l.mapM fun a => (f a).map g) = (l.mapM f).map (List.map g) := by
  induction l with
  | nil => rfl
  | cons a l ih =>
      rw [List.mapM_cons, List.mapM_cons, ih]
      cases f a with
      | none => rfl
      | some b => cases l.mapM f <;> rfl

theorem printGroups_eq (view : SelectView) (groupCol : Option Nat) (groups : List GroupBucket) :
    printGroups view groupCol groups =
      (groups.mapM fun b => view.projection.mapM (groupText groupCol b)).map
        (List.map (List.map printCell)) := by
  rw [printGroups, ← mapM_map_eq]
  simp only [mapM_map_eq]

/-- The rows that are printed are those of the values. -/
theorem rows_outputOf (view : SelectView) (clauses : SelectClauses) (found : List (List CStr)) :
    (outputOf view clauses found).map ResultPage.rows =
      (outputValues view clauses found).map (List.map (printed view clauses)) := by
  unfold outputOf outputValues printed
  by_cases hbuffered : needsBuffering clauses = true
  · simp only [if_pos hbuffered]
    unfold bufferedPage
    cases hrs : bufferRows view found with
    | none => rfl
    | some rs =>
        have hnames := columnNames_bufferRows hrs
        simp only [Option.bind_eq_bind, Option.bind_some]
        cases clauses.orderColumns.mapM (sortSpec rs) with
        | none => rfl
        | some specs =>
            simp only [Option.bind_some]
            cases hsorted : resultSetSortMulti rs specs with
            | none => rfl
            | some sorted =>
                obtain ⟨hsame, -⟩ := resultSetSortMulti_eq_some hsorted
                simp [columnNames_resultSetLimit, hsame, hnames]
  · simp only [if_neg hbuffered]
    rw [streamedPage, Option.map_map]
    unfold streamedRows
    cases view.grouping with
    | none => simp [Function.comp_def]
    | some groupCol =>
        dsimp only
        cases found.foldlM (updateBucket view groupCol) [] with
        | none => rfl
        | some groups =>
            simp only [Option.bind_some, printGroups_eq, Option.bind_eq_bind, Option.map_map]
            rfl

/-! ## The run of a SELECT -/

/-- What a SELECT finds is found in the columns of its table, under its resolved condition. -/
structure SelectFinds (store : KVStore n) (session : SessionContext) (stmt : SelectStmt)
    (whereClause : Option ASTExpr) (schemaVal : Value) (columns : List ScanColumn)
    (run : SelectRun) : Prop where
  resolved : resolveOptionalWhere store session stmt.whereClause = some whereClause
  schema : schemaValue store session stmt.clauses.tableName = some schemaVal
  columns_eq : tableColumns schemaVal = some columns
  scan_eq : run.scan =
    { database := session.currentDb
      tableName := stmt.clauses.tableName
      whereClause := whereClause
      columns := columns }
  path_eq : accessPath store stmt.clauses.tableName whereClause = some run.path
  rows_eq : scanPath store run.scan run.path = some run.rows

theorem exists_selectFinds {store : KVStore n} {session : SessionContext} {stmt : SelectStmt}
    {run : SelectRun} (hrun : executeSelect store session stmt = some (some run)) :
    ∃ whereClause schemaVal columns,
      SelectFinds store session stmt whereClause schemaVal columns run := by
  unfold executeSelect at hrun
  obtain ⟨whereClause, hresolved, hrun⟩ := Option.bind_eq_some_iff.mp hrun
  obtain ⟨path, hpath, hrun⟩ := Option.bind_eq_some_iff.mp hrun
  obtain ⟨key, hkey, hrun⟩ := Option.bind_eq_some_iff.mp hrun
  cases hget : kvGet store key with
  | none =>
      rw [hget] at hrun
      cases hrun
  | some schemaVal =>
      rw [hget] at hrun
      obtain ⟨columns, hcolumns, hrun⟩ := Option.bind_eq_some_iff.mp hrun
      obtain ⟨rows, hrows, hrun⟩ := Option.bind_eq_some_iff.mp hrun
      cases hrun
      refine ⟨whereClause, schemaVal, columns, hresolved, ?_, hcolumns, rfl, hpath, hrows⟩
      rw [schemaValue, hkey, Option.bind_some, hget]

/-! ## Columns without types -/

@[simp]
theorem getColIndex_namedColumns (columns : List ScanColumn) (colName : CStr) :
    getColIndex (namedColumns columns) colName = getColIndex columns colName := by
  rw [getColIndex, getColIndex, namedColumns, List.findIdx?_map]
  rfl

theorem getElem?_namedColumns (columns : List ScanColumn) (i : Nat) :
    (namedColumns columns)[i]? = columns[i]?.map fun column => { column with type := none } :=
  List.getElem?_map

/-- A comparison that is decided without a type is decided, in the same way, with it. -/
theorem evaluateCondition_of_named {columns : List ScanColumn} {row : List CStr} {cond : ASTExpr}
    {holds : Bool} (hnamed : evaluateCondition (namedColumns columns) row cond = some holds) :
    evaluateCondition columns row cond = some holds := by
  induction cond generalizing holds with
  | binary left op right ihl ihr =>
      rw [evaluateCondition] at hnamed ⊢
      by_cases hand : op = CStr.lit "AND"
      · rw [if_pos hand] at hnamed ⊢
        obtain ⟨first, hfirst, hnamed⟩ := Option.bind_eq_some_iff.mp hnamed
        refine Option.bind_eq_some_iff.mpr ⟨first, ihl hfirst, ?_⟩
        cases first with
        | false => exact hnamed
        | true => exact ihr hnamed
      · rw [if_neg hand] at hnamed ⊢
        by_cases hor : op = CStr.lit "OR"
        · rw [if_pos hor] at hnamed ⊢
          obtain ⟨first, hfirst, hnamed⟩ := Option.bind_eq_some_iff.mp hnamed
          refine Option.bind_eq_some_iff.mpr ⟨first, ihl hfirst, ?_⟩
          cases first with
          | false => exact ihr hnamed
          | true => exact hnamed
        · rw [if_neg hor] at hnamed ⊢
          obtain ⟨colName, hname, hnamed⟩ := Option.bind_eq_some_iff.mp hnamed
          refine Option.bind_eq_some_iff.mpr ⟨colName, hname, ?_⟩
          rw [getColIndex_namedColumns] at hnamed
          cases hcol : getColIndex columns colName with
          | none =>
              rw [hcol] at hnamed
              exact hnamed
          | some colIdx =>
              rw [hcol] at hnamed
              dsimp only at hnamed ⊢
              rw [getElem?_namedColumns] at hnamed
              cases hcolumn : columns[colIdx]? with
              | none =>
                  rw [hcolumn] at hnamed
                  exact hnamed
              | some column =>
                  rw [hcolumn] at hnamed
                  cases hcell : row[colIdx]? with
                  | none =>
                      rw [hcell] at hnamed
                      exact hnamed
                  | some cellVal =>
                      rw [hcell] at hnamed
                      cases right with
                      | literal rightVal => cases hnamed
                      | binary l o r => exact hnamed
                      | identifier value => exact hnamed
                      | subquery => exact hnamed
  | literal value => exact hnamed
  | identifier value => exact hnamed
  | subquery => exact hnamed

/-- A comparison with a literal is not found true without a type. -/
theorem evaluateCondition_named_ne {columns : List ScanColumn} {row : List CStr}
    {left : ASTExpr} {op val : CStr} (hand : op ≠ CStr.lit "AND") (hor : op ≠ CStr.lit "OR") :
    evaluateCondition (namedColumns columns) row (.binary left op (.literal val)) ≠ some true := by
  intro hnamed
  rw [evaluateCondition, if_neg hand, if_neg hor] at hnamed
  obtain ⟨colName, -, hnamed⟩ := Option.bind_eq_some_iff.mp hnamed
  cases hcol : getColIndex (namedColumns columns) colName with
  | none =>
      rw [hcol] at hnamed
      cases hnamed
  | some colIdx =>
      rw [hcol] at hnamed
      dsimp only at hnamed
      rw [getElem?_namedColumns] at hnamed
      cases hcolumn : columns[colIdx]? with
      | none =>
          rw [hcolumn] at hnamed
          cases hnamed
      | some column =>
          rw [hcolumn] at hnamed
          cases hcell : row[colIdx]? with
          | none =>
              rw [hcell] at hnamed
              cases hnamed
          | some cellVal =>
              rw [hcell] at hnamed
              cases hnamed

/-- The scan of a subquery. -/
def ScanContext.untyped (scan : ScanContext) : ScanContext :=
  { scan with columns := namedColumns scan.columns }

theorem scanCallback_of_untyped {scan : ScanContext} {key : CStr} {val : Value}
    {row : Option (List CStr)} (huntyped : scanCallback scan.untyped key val = some row) :
    scanCallback scan key val = some row := by
  obtain ⟨keyPrefix, hlead, huntyped⟩ := Option.bind_eq_some_iff.mp huntyped
  refine Option.bind_eq_some_iff.mpr ⟨keyPrefix, hlead, ?_⟩
  split at huntyped
  · next hkey =>
      rw [if_pos hkey]
      obtain ⟨tokens, htokens, huntyped⟩ := Option.bind_eq_some_iff.mp huntyped
      refine Option.bind_eq_some_iff.mpr ⟨tokens, htokens, ?_⟩
      cases tokens with
      | none => exact huntyped
      | some tokens =>
          obtain ⟨holds, hholds, huntyped⟩ := Option.bind_eq_some_iff.mp huntyped
          refine Option.bind_eq_some_iff.mpr ⟨holds, ?_, huntyped⟩
          change evaluateWhere (namedColumns scan.columns) scan.whereClause tokens = _ at hholds
          unfold evaluateWhere at hholds ⊢
          cases hwhere : scan.whereClause with
          | none =>
              rw [hwhere] at hholds
              exact hholds
          | some cond =>
              rw [hwhere] at hholds
              exact evaluateCondition_of_named hholds
  · next hkey =>
      rw [if_neg hkey]
      exact huntyped

/-! ## Scans up to the first row -/

/-- Each entry up to the first row that is found can be read, and is decided. -/
def decidesFirst (scan : ScanContext) : List (CStr × Value) → Bool
  | [] => true
  | e :: entries =>
      match scanCallback scan e.1 e.2 with
      | none => false
      | some none => decidesFirst scan entries
      | some (some _) => true

/-- The row that is found first. -/
def firstRow (store : KVStore n) (scan : ScanContext) : Option (List CStr) :=
  (toList store.entries).findSome? (matchingRow scan)

theorem findSome?_untyped {scan : ScanContext} {entries : List (CStr × Value)}
    (hdecides : decidesFirst scan.untyped entries = true) :
    entries.findSome? (matchingRow scan) = entries.findSome? (matchingRow scan.untyped) := by
  induction entries with
  | nil => rfl
  | cons e entries ih =>
      rw [List.findSome?_cons, List.findSome?_cons]
      rw [decidesFirst] at hdecides
      cases hcall : scanCallback scan.untyped e.1 e.2 with
      | none =>
          rw [hcall] at hdecides
          cases hdecides
      | some row =>
          rw [← scanCallback_eq hcall, ← scanCallback_eq (scanCallback_of_untyped hcall)]
          cases row with
          | none =>
              rw [hcall] at hdecides
              exact ih hdecides
          | some row => rfl

/-- What no step changes stays. -/
theorem foldl_of_fixed {σ ε : Type*} {f : σ → ε → σ} {s : σ} (hfixed : ∀ e, f s e = s)
    (entries : List ε) : entries.foldl f s = s := by
  induction entries with
  | nil => rfl
  | cons e entries ih => rw [List.foldl_cons, hfixed, ih]

omit [NeZero n] in
/-- What a scan in capture mode takes. -/
theorem capturedValue_eq {store : KVStore n} {scan : ScanContext} {target : Option Nat}
    (hdecides : decidesFirst scan (toList store.entries) = true) :
    capturedValue store scan target =
      (firstRow store scan).elim (some none) fun row => target.map fun col => some row[col]? := by
  rw [capturedValue, kvIterate_eq_foldl, firstRow]
  generalize toList store.entries = entries at hdecides
  induction entries with
  | nil => rfl
  | cons e entries ih =>
      rw [List.foldl_cons, List.findSome?_cons]
      rw [decidesFirst] at hdecides
      cases hcall : scanCallback scan e.1 e.2 with
      | none =>
          rw [hcall] at hdecides
          cases hdecides
      | some row =>
          rw [← scanCallback_eq hcall]
          cases row with
          | none =>
              rw [hcall] at hdecides
              exact ih hdecides
          | some row =>
              refine foldl_of_fixed (fun e => ?_) entries
              cases target with
              | none => rfl
              | some col => rfl

/-- An access path finds the rows of entries of the store only. -/
theorem scanPath_of_noRow {store : KVStore n} {scan : ScanContext} {path : AccessPath}
    {rows : List (List CStr)} (hscan : scanPath store scan path = some rows)
    (hnone : ∀ e ∈ toList store.entries, matchingRow scan e = none) : rows = [] := by
  have hfound : ∀ pk, foundRow store scan pk = none := by
    intro pk
    cases hget : kvGet store pk with
    | none => rw [foundRow, hget, Option.bind_none]
    | some val =>
        obtain ⟨i, -, hi⟩ := lookup_eq_some_iff_hit.mp hget
        rw [foundRow, hget, Option.bind_some]
        exact hnone _ (mem_toList.mpr ⟨i, hi⟩)
  cases path with
  | primaryKeyLookup id =>
      obtain ⟨pkKey, -, rfl⟩ := lookup_rows hscan
      rw [hfound]
      rfl
  | indexScan col op val =>
      rw [indexScan_rows hscan, List.filterMap_eq_nil_iff]
      exact fun pk _ => hfound pk
  | fullTableScan =>
      rw [scanTable_eq hscan]
      exact List.filterMap_eq_nil_iff.mpr hnone

/-- The first row of a SELECT is the first that the scan of a subquery would find. -/
theorem head_scanPath {store : KVStore n} {scan : ScanContext} {path : AccessPath}
    {rows : List (List CStr)} (hpath : accessPath store scan.tableName scan.whereClause = some path)
    (hscan : scanPath store scan path = some rows)
    (hdecides : decidesFirst scan.untyped (toList store.entries) = true) :
    rows.head? = firstRow store scan.untyped := by
  have hfirst := findSome?_untyped hdecides
  by_cases hfull : path = .fullTableScan
  · subst hfull
    rw [scanTable_eq hscan, matchingRows, List.head?_filterMap, hfirst, firstRow]
  · -- another path is for a comparison with a literal, which no row meets without a type
    obtain ⟨left, op, val, hwhere, hop⟩ : ∃ left op val,
        scan.whereClause = some (.binary left op (.literal val)) ∧
          (op = CStr.lit "=" ∨ op = CStr.lit ">") := by
      unfold accessPath at hpath
      split at hpath
      · next left op val hwhere =>
          refine ⟨left, op, val, hwhere, ?_⟩
          obtain ⟨col, -, hpath⟩ := Option.bind_eq_some_iff.mp hpath
          split_ifs at hpath with hid hindexed
          · exact .inl hid.2
          · exact hindexed.2
          · exact absurd (Option.some_inj.mp hpath).symm hfull
      · exact absurd (Option.some_inj.mp hpath).symm hfull
    have hand : op ≠ CStr.lit "AND" := by
      rcases hop with rfl | rfl
      · decide
      · decide
    have hor : op ≠ CStr.lit "OR" := by
      rcases hop with rfl | rfl
      · decide
      · decide
    have hnone : firstRow store scan.untyped = none := by
      refine List.findSome?_eq_none_iff.mpr fun e _ => ?_
      refine Option.filter_eq_none_iff.mpr fun row _ => ?_
      rw [decide_eq_true_iff]
      change evaluateWhere (namedColumns scan.columns) scan.whereClause row ≠ some true
      rw [hwhere]
      exact evaluateCondition_named_ne hand hor
    have hrows := scanPath_of_noRow hscan (List.findSome?_eq_none_iff.mp (hfirst.trans hnone))
    rw [hrows, hnone]
    rfl

/-! ## What a subquery captures -/

/-- The column of the table that the list starts with. -/
def firstColumn (columns : List ScanColumn) (clauses : SelectClauses) : Option Nat :=
  clauses.columns.head?.bind fun first =>
    if first.value = CStr.lit "*" then none else getColIndex columns first.value

/-- The first row is output first, with a column of the table in front. -/
def OutputsColumn (columns : List ScanColumn) (clauses : SelectClauses) : Prop :=
  (groupingOf columns (projectionOf columns clauses.columns) clauses.groupBy).1 = none ∧
    firstColumn columns clauses ≠ none ∧ clauses.orderColumns = [] ∧
    (clauses.limit ≤ 0 ∨ clauses.offset ≤ 0)

instance (columns : List ScanColumn) (clauses : SelectClauses) :
    Decidable (OutputsColumn columns clauses) :=
  inferInstanceAs (Decidable (_ ∧ _))

theorem outputValues_nil {view : SelectView} {clauses : SelectClauses} {rows : List (List CStr)}
    (hrows : outputValues view clauses [] = some rows) : rows = [] := by
  unfold outputValues at hrows
  split at hrows
  · obtain ⟨rs, hrs, hrows⟩ := Option.bind_eq_some_iff.mp hrows
    obtain ⟨specs, -, hrows⟩ := Option.bind_eq_some_iff.mp hrows
    obtain ⟨sorted, hsorted, hrows⟩ := Option.bind_eq_some_iff.mp hrows
    cases hrows
    have hempty : rs.rows = [] := by
      unfold bufferRows at hrs
      split at hrs
      · cases hrs
        exact rows_resultSetFor _
      · cases hrs
        exact rows_resultSetFor _
    obtain ⟨-, hperm⟩ := resultSetSortMulti_eq_some hsorted
    rw [hempty, List.perm_nil] at hperm
    unfold resultSetLimit
    split
    · exact hperm
    · rw [hperm]
      simp
  · split at hrows
    · cases hrows
      rfl
    · cases hrows
      rfl

theorem firstValue_outputValues {schemaVal : Value} {columns : List ScanColumn}
    {clauses : SelectClauses} {i : Nat} (hschema : schemaVal.type = .schema)
    (houtputs : OutputsColumn columns clauses) (hcolumn : firstColumn columns clauses = some i)
    {found rows : List (List CStr)} {tokens : List CStr} (hfound : found.head? = some tokens)
    (hrows : outputValues (selectView schemaVal columns clauses) clauses found = some rows) :
    firstValue rows = tokens[i]?.getD (CStr.lit "NULL") := by
  obtain ⟨hgrouping, -, horder, hpage⟩ := houtputs
  obtain ⟨first, hfirst, hcolumn⟩ := Option.bind_eq_some_iff.mp hcolumn
  obtain ⟨rest, hlist⟩ := List.head?_eq_some_iff.mp hfirst
  obtain ⟨more, rfl⟩ := List.head?_eq_some_iff.mp hfound
  have hstar : first.value ≠ CStr.lit "*" := by
    intro hstar
    rw [if_pos hstar] at hcolumn
    cases hcolumn
  rw [if_neg hstar] at hcolumn
  have hview : (selectView schemaVal columns clauses).grouping = none := by
    rw [selectView, if_pos hschema]
    exact hgrouping
  have hprojection : (selectView schemaVal columns clauses).projection =
      projectedColumn columns first :: rest.map (projectedColumn columns) := by
    rw [selectView, if_pos hschema, hlist]
    exact if_neg fun h => hstar h.1
  have hindex : (projectedColumn columns first).index = i := by
    rw [projectedColumn, if_neg fun h => hstar h.1, hcolumn]
    rfl
  generalize selectView schemaVal columns clauses = view at hrows hview hprojection
  have hvalues : ∀ tokens, ∃ values, view.rowValues tokens =
      tokens[i]?.getD (CStr.lit "NULL") :: values := by
    intro tokens
    rw [SelectView.rowValues, hprojection, if_neg (List.cons_ne_nil _ _), List.map_cons, hindex]
    exact ⟨_, rfl⟩
  obtain ⟨values, hfirstRow⟩ := hvalues tokens
  unfold outputValues at hrows
  split at hrows
  · next hbuffered =>
      have hlimit : 0 < clauses.limit := by
        simpa [needsBuffering, horder] using hbuffered
      have hoffset : clauses.offset.toNat = 0 := by omega
      have hall : ((tokens :: more).map view.rowValues).filter (· ≠ []) =
          (tokens :: more).map view.rowValues := by
        refine List.filter_eq_self.mpr (List.forall_mem_map.mpr fun row _ => ?_)
        obtain ⟨values, hrow⟩ := hvalues row
        simp [hrow]
      rw [bufferRows_of_ungrouped hview, hall, horder] at hrows
      simp only [List.mapM_nil, Option.pure_def, Option.bind_eq_bind, Option.bind_some] at hrows
      rw [resultSetSortMulti, if_pos (.inl rfl), Option.bind_some] at hrows
      cases hrows
      rw [rows_resultSetLimit hlimit, hoffset, List.drop_zero, firstValue, List.head?_take,
        if_neg (by omega)]
      simp [hfirstRow]
  · rw [hview] at hrows
    cases hrows
    simp [firstValue, hfirstRow]

/-- The scan for a subquery. -/
def subqueryScan (session : SessionContext) (clauses : SelectClauses)
    (whereClause : Option ASTExpr) (columns : List ScanColumn) : ScanContext where
  database := session.currentDb
  tableName := clauses.tableName
  whereClause := whereClause
  columns := namedColumns columns

/-- No column is compared up to the first row of the table that is found, and where one is found,
its value is what a SELECT outputs first. -/
def Captures (store : KVStore n) (session : SessionContext) (clauses : SelectClauses)
    (whereClause : Option ASTExpr) : Prop :=
  ∀ schemaVal ∈ schemaValue store session clauses.tableName, schemaVal.type = .schema ∧
    ∀ columns ∈ tableColumns schemaVal,
      decidesFirst (subqueryScan session clauses whereClause columns) (toList store.entries) =
          true ∧
        (firstRow store (subqueryScan session clauses whereClause columns) ≠ none →
          OutputsColumn columns clauses)

instance (store : KVStore n) (session : SessionContext) (clauses : SelectClauses)
    (whereClause : Option ASTExpr) : Decidable (Captures store session clauses whereClause) :=
  inferInstanceAs (Decidable (∀ _ ∈ _, _ ∧ ∀ _ ∈ _, _))

/-- A subquery is answered by what its SELECT outputs first. -/
theorem executeScalarSubquery_eq {store : KVStore n} {session : SessionContext}
    {clauses : SelectClauses} {subWhere : Option Expr} {val : CStr}
    (hfirst : firstOutput store session { clauses := clauses, whereClause := subWhere } =
      some (some val))
    (hcaptures : ∀ inner ∈ resolveOptionalWhere store session subWhere,
      Captures store session clauses inner) :
    ∃ inner, resolveOptionalWhere store session subWhere = some inner ∧
      executeScalarSubquery store session clauses inner = some (some val) := by
  obtain ⟨found, hselect, hfirst⟩ := Option.bind_eq_some_iff.mp hfirst
  cases found with
  | none => cases hfirst
  | some run =>
      obtain ⟨inner, schemaVal, columns, hfinds⟩ := exists_selectFinds hselect
      refine ⟨inner, hfinds.resolved, ?_⟩
      obtain ⟨htype, hcolumns⟩ := hcaptures inner hfinds.resolved schemaVal hfinds.schema
      obtain ⟨hdecides, houtputs⟩ := hcolumns columns hfinds.columns_eq
      obtain ⟨key, hkey, hget⟩ := Option.bind_eq_some_iff.mp hfinds.schema
      obtain ⟨schemaVal', hschema, hfirst⟩ := Option.bind_eq_some_iff.mp hfirst
      cases hfinds.schema.symm.trans hschema
      obtain ⟨rows, hrows, hfirst⟩ := Option.bind_eq_some_iff.mp hfirst
      cases hfirst
      have hscan : run.scan.untyped = subqueryScan session clauses inner columns := by
        rw [hfinds.scan_eq]
        rfl
      have hhead :
          run.rows.head? = firstRow store (subqueryScan session clauses inner columns) := by
        rw [← hscan] at hdecides ⊢
        refine head_scanPath ?_ hfinds.rows_eq hdecides
        rw [hfinds.scan_eq]
        exact hfinds.path_eq
      rw [hfinds.scan_eq] at hrows
      unfold executeScalarSubquery
      rw [hkey]
      simp only [Option.bind_eq_bind, Option.bind_some, hget, if_pos htype, hfinds.columns_eq]
      -- the scan that is made is `subqueryScan`
      change (capturedValue store (subqueryScan session clauses inner columns) _).bind _ = _
      rw [capturedValue_eq hdecides]
      cases hrow : firstRow store (subqueryScan session clauses inner columns) with
      | none =>
          rw [hrow, List.head?_eq_none_iff] at hhead
          rw [hhead] at hrows
          rw [outputValues_nil hrows]
          rfl
      | some tokens =>
          have hcolumn := houtputs (by rw [hrow]; exact Option.some_ne_none _)
          obtain ⟨i, hi⟩ := Option.ne_none_iff_exists'.mp hcolumn.2.1
          rw [hrow] at hhead
          rw [firstValue_outputValues htype hcolumn hi hhead hrows]
          obtain ⟨first, hlist, hi⟩ := Option.bind_eq_some_iff.mp hi
          split_ifs at hi
          rw [hlist]
          dsimp only
          rw [hi]
          rfl

/-! ## Trees that the pass resolves -/

/-- No node of the tree is a subquery. -/
def noSubquery : Expr → Bool
  | .binary left _ right => noSubquery left && noSubquery right
  | .subquery _ _ => false
  | _ => true

/-- The only subquery is the right operand of the topmost node, and is captured as its SELECT
outputs it. -/
def Resolvable (store : KVStore n) (session : SessionContext) : Option Expr → Prop
  | some (.binary left _ (.subquery clauses whereClause)) =>
      noSubquery left = true ∧ ∀ inner ∈ resolveOptionalWhere store session whereClause,
        Captures store session clauses inner
  | some cond => noSubquery cond = true
  | none => True

theorem withLiterals_of_noSubquery {store : KVStore n} {session : SessionContext} :
    (cond : Expr) → noSubquery cond = true → withLiterals store session cond = some cond
  | .binary left op right, hnone => by
      obtain ⟨hleft, hright⟩ := Bool.and_eq_true_iff.mp hnone
      rw [withLiterals, withLiterals_of_noSubquery left hleft,
        withLiterals_of_noSubquery right hright]
      rfl
  | .literal _, _ => rfl
  | .identifier _, _ => rfl
  | .subquery _ _, hnone => by cases hnone

/-- A tree is resolved to the one with literals. -/
theorem resolveWhereClause_withLiterals {store : KVStore n} {session : SessionContext}
    {cond tree : Expr} (hresolvable : Resolvable store session (some cond))
    (htree : withLiterals store session cond = some tree) :
    resolveWhereClause store session cond = resolveWhereClause store session tree := by
  unfold Resolvable at hresolvable
  split at hresolvable
  · next left op clauses subWhere heq =>
      cases heq
      obtain ⟨hleft, hcaptures⟩ := hresolvable
      rw [withLiterals, withLiterals_of_noSubquery left hleft, withLiterals] at htree
      obtain ⟨lit, hlit, htree⟩ := Option.bind_eq_some_iff.mp htree
      cases hlit
      obtain ⟨right, hright, htree⟩ := Option.bind_eq_some_iff.mp htree
      obtain ⟨val, hval, rfl⟩ := Option.map_eq_some_iff.mp hright
      cases htree
      obtain ⟨inner, hinner, hvalue⟩ :=
        executeScalarSubquery_eq (Option.join_eq_some_iff.mp hval) hcaptures
      cases subWhere with
      | none =>
          cases hinner
          simp [resolveWhereClause, condition, hvalue]
      | some subCond =>
          obtain ⟨subTree, hsub, rfl⟩ := Option.map_eq_some_iff.mp hinner
          simp [resolveWhereClause, condition, hsub, hvalue]
  · next cond' _ heq =>
      cases heq
      rw [withLiterals_of_noSubquery _ hresolvable] at htree
      cases htree
      rfl
  · next heq => cases heq

/-- A SELECT reads the literals in place of its subqueries if the pass resolves its tree. -/
theorem readsLiterals_of_resolvable (store : KVStore n) (session : SessionContext)
    (stmt : SelectStmt) (hresolvable : Resolvable store session stmt.whereClause) :
    ReadsLiterals store session stmt := by
  intro cond hcond tree htree run hrun
  have hsame : executeSelect store session stmt =
      executeSelect store session { stmt with whereClause := some tree } := by
    unfold executeSelect
    rw [Option.mem_def.mp hcond] at hresolvable ⊢
    simp only [resolveOptionalWhere, resolveWhereClause_withLiterals hresolvable htree]
  rw [hsame, Option.mem_def.mp hrun]
  rfl

/-- The clauses of `SELECT id FROM t`. -/
def selectId : SelectClauses where
  tableName := CStr.lit "t"
  columns := [{ value := CStr.lit "id", funcType := .none }]
  groupBy := none
  orderColumns := []
  limit := 0
  offset := 0

/-- `SELECT * FROM t WHERE id = right` -/
def selectSameId (right : Expr) : SelectStmt where
  clauses := { selectId with columns := [{ value := CStr.lit "*", funcType := .none }] }
  whereClause := some (.binary (.identifier (CStr.lit "id")) (CStr.lit "=") right)

theorem readsLiterals_sameId :
    ReadsLiterals nameKeyedDb.store publicSession (selectSameId (.subquery selectId none)) := by
  refine readsLiterals_of_resolvable nameKeyedDb.store publicSession _ ⟨rfl, fun inner hinner => ?_⟩
  cases hinner
  decide +kernel

/-- `SELECT * FROM t WHERE id = right AND name = 5` -/
def selectSameIdAndName (right : Expr) : SelectStmt where
  clauses := (selectSameId right).clauses
  whereClause :=
    some (.binary (.binary (.identifier (CStr.lit "id")) (CStr.lit "=") right) (CStr.lit "AND")
      (.binary (.identifier (CStr.lit "name")) (CStr.lit "=") (.literal (CStr.lit "5"))))

/-- A subquery below AND is not resolved, and no row meets the condition. -/
theorem below_and_finds_nothing :
    ¬ ReadsLiterals nameKeyedDb.store publicSession
      (selectSameIdAndName (.subquery selectId none)) := by
  intro hreads
  have hfirst : firstOutput nameKeyedDb.store publicSession
      { clauses := selectId, whereClause := none } = some (some (CStr.lit "7")) := by decide +kernel
  have hrows : (executeSelect nameKeyedDb.store publicSession
      (selectSameIdAndName (.literal (CStr.lit "7")))).map (Option.map SelectRun.rows) =
        some (some [[CStr.lit "5", CStr.lit "7"]]) := by decide +kernel
  obtain ⟨run, hrun, hfound⟩ := Option.map_eq_some_iff.mp hrows
  have hsame := hreads _ rfl _ (by simp [withLiterals, hfirst]) run hrun
  rw [hfound] at hsame
  revert hsame
  decide +kernel

end Executor
end InventixDB
