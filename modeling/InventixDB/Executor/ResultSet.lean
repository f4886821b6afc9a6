import InventixDB.Lib.PartialSort
import InventixDB.Storage.Double

/-!
# ResultSet — buffered rows

The result set of `query_result.c`: it is made for a number of columns, gets its columns and rows
one by one, and is then sorted and cut to a page.
-/

namespace InventixDB
namespace Executor

open Storage

/-! ## Result sets -/

/-- `RESULT_MAX_COLUMNS` -/
def resultMaxColumns : Nat := 64

/-- Names and types may be `NULL`; `column_count` is the number of names. -/
structure ResultSet where
  columnNames : List (Option CStr)
  columnTypes : List (Option CStr)
  rows : List (List CStr)
  deriving DecidableEq

/-- `result_set_create`: the arrays of up to 64 columns are there at once, all `NULL`. -/
def resultSetCreate (columnCount : Nat) : ResultSet :=
  let count := if 0 < columnCount ∧ columnCount ≤ resultMaxColumns then columnCount else 0
  { columnNames := List.replicate count none
    columnTypes := List.replicate count none
    rows := [] }

/-- `result_set_add_column` adds behind what is there. -/
def resultSetAddColumn (rs : ResultSet) (column : CStr × Option CStr) : ResultSet :=
  if resultMaxColumns ≤ rs.columnNames.length then rs
  else
    { rs with
      columnNames := rs.columnNames ++ [some column.1]
      columnTypes := rs.columnTypes ++ [column.2] }

/-- `result_set_add_row`; a row without values is not taken. -/
def resultSetAddRow (rs : ResultSet) (values : List CStr) : ResultSet :=
  if values = [] then rs else { rs with rows := rs.rows ++ [values] }

/-! ## Sorting -/

/-- A column of an ORDER BY; `columnIndex` is `none` for `-1`. -/
structure SortSpec where
  columnIndex : Option Nat
  descending : Bool
  isNumeric : Bool
  deriving DecidableEq

/-- The first column of a name, in any case.  `none` is a comparison with a `NULL` name. -/
def namedColumn (name : CStr) : List (Option CStr) → Option (Option Nat)
  | [] => some none
  | none :: _ => none
  | some column :: names =>
      if CStr.sameIgnoringCase name column then some (some 0)
      else (namedColumn name names).map fun found => found.map Nat.succ

/-- How `execute_select` looks an ORDER BY column up. -/
def sortSpec (rs : ResultSet) (order : CStr × Bool) : Option SortSpec :=
  (namedColumn order.1 rs.columnNames).map fun found =>
    { columnIndex := found
      descending := order.2
      isNumeric :=
        ((found.bind fun j => rs.columnTypes[j]?).join).any fun type =>
          ["INT", "FLOAT", "INTEGER"].any fun t => CStr.sameIgnoringCase type (CStr.lit t) }

/-- `is_numeric_string`: digits with at most one point, after an optional sign. -/
def isNumericString (s : CStr) : Bool :=
  match s.val with
  | [] => false
  | c :: bs =>
      let number := if c = 45 ∨ c = 43 then bs else c :: bs
      number.all (fun d => d = 46 || CStr.isDigit d) && number.count 46 ≤ 1

/-- The sign of `strcmp` -/
def strcmp (a b : CStr) : Ordering :=
  if a.val < b.val then .lt else if b.val < a.val then .gt else .eq

/-- `compare_rows`; a column that was not found is read before the row. -/
def compareRows : List SortSpec → List CStr → List CStr → Option Ordering
  | [], _, _ => some .eq
  | spec :: specs, ra, rb => do
      let col ← spec.columnIndex
      match ra[col]?, rb[col]? with
      | some va, some vb =>
          let cmp :=
            if spec.isNumeric && isNumericString va && isNumericString vb then
              let da := CStr.atof va
              let db := CStr.atof vb
              if db.lt da then .gt else if da.lt db then .lt else .eq
            else strcmp va vb
          if cmp = .eq then compareRows specs ra rb
          else some (if spec.descending then cmp.swap else cmp)
      | _, _ => compareRows specs ra rb

/-- `result_set_sort_multi` -/
def resultSetSortMulti (rs : ResultSet) (specs : List SortSpec) : Option ResultSet :=
  if specs = [] ∨ rs.rows.length < 2 then some rs
  else
    (Lib.PartialSort.sort (fun ra rb => (compareRows specs ra rb).map (· ≠ .gt)) rs.rows).map
      fun rows => { rs with rows := rows }

/-- Sorting rearranges the rows and nothing else. -/
theorem resultSetSortMulti_eq_some {rs sorted : ResultSet} {specs : List SortSpec}
    (hsort : resultSetSortMulti rs specs = some sorted) :
    sorted.columnNames = rs.columnNames ∧ sorted.rows.Perm rs.rows := by
  unfold resultSetSortMulti at hsort
  split at hsort
  · cases hsort
    exact ⟨rfl, List.Perm.refl _⟩
  · obtain ⟨rows, hrows, rfl⟩ := Option.map_eq_some_iff.mp hsort
    exact ⟨rfl, Lib.PartialSort.sort_perm hrows⟩

/-! ## Pages -/

/-- `result_set_limit`; a limit that is not positive is none. -/
def resultSetLimit (rs : ResultSet) (limit offset : Int) : ResultSet :=
  if limit ≤ 0 ∧ offset ≤ 0 then rs
  else
    let rest := rs.rows.drop offset.toNat
    { rs with rows := if 0 < limit then rest.take limit.toNat else rest }

@[simp]
theorem columnNames_resultSetLimit (rs : ResultSet) (limit offset : Int) :
    (resultSetLimit rs limit offset).columnNames = rs.columnNames := by
  unfold resultSetLimit
  split <;> rfl

/-- The rows `offset + 1` to `offset + limit` remain. -/
theorem rows_resultSetLimit {rs : ResultSet} {limit offset : Int} (hlimit : 0 < limit) :
    (resultSetLimit rs limit offset).rows = (rs.rows.drop offset.toNat).take limit.toNat := by
  rw [resultSetLimit, if_neg (by omega)]
  exact if_pos hlimit

/-! ## The columns of a result set -/

/-- Columns are only ever added behind the others. -/
theorem addColumns_extends (columns : List (CStr × Option CStr)) (rs : ResultSet) :
    rs.columnNames <+: (columns.foldl resultSetAddColumn rs).columnNames := by
  induction columns generalizing rs with
  | nil => exact List.prefix_refl _
  | cons column columns ih =>
      refine List.IsPrefix.trans ?_ (ih _)
      unfold resultSetAddColumn
      split
      · exact List.prefix_refl _
      · exact List.prefix_append _ _

theorem length_addColumns_le {columns : List (CStr × Option CStr)} {rs : ResultSet}
    (hroom : rs.columnNames.length ≤ resultMaxColumns) :
    (columns.foldl resultSetAddColumn rs).columnNames.length ≤ resultMaxColumns := by
  induction columns generalizing rs with
  | nil => exact hroom
  | cons column columns ih =>
      refine ih ?_
      unfold resultSetAddColumn
      split
      · exact hroom
      · simp only [List.length_append, List.length_cons, List.length_nil]
        omega

/-- The set-up of `execute_select`: made for its columns, it gets each of them once more. -/
def resultSetFor (columns : List (CStr × Option CStr)) : ResultSet :=
  columns.foldl resultSetAddColumn (resultSetCreate columns.length)

@[simp]
theorem resultSetFor_nil : resultSetFor [] = { columnNames := [], columnTypes := [], rows := [] } :=
  rfl

/-- A set-up has no rows yet. -/
theorem rows_resultSetFor (columns : List (CStr × Option CStr)) :
    (resultSetFor columns).rows = [] := by
  have hadd : ∀ (columns : List (CStr × Option CStr)) (rs : ResultSet),
      (columns.foldl resultSetAddColumn rs).rows = rs.rows := by
    intro columns
    induction columns with
    | nil => intro rs; rfl
    | cons column columns ih =>
        intro rs
        rw [List.foldl_cons, ih, resultSetAddColumn]
        split <;> rfl
  exact hadd columns _

/-- No set-up with columns has their names. -/
theorem columnNames_resultSetFor_ne {columns : List (CStr × Option CStr)} (hne : columns ≠ []) :
    (resultSetFor columns).columnNames ≠ columns.map fun column => some column.1 := by
  intro hnames
  have hpos : 0 < columns.length := List.length_pos_iff.mpr hne
  by_cases hcount : columns.length ≤ resultMaxColumns
  · -- the first name is still the `NULL` of the empty arrays
    have hextends := addColumns_extends columns (resultSetCreate columns.length)
    rw [← resultSetFor, hnames, resultSetCreate, if_pos ⟨hpos, hcount⟩] at hextends
    obtain ⟨column, rest, rfl⟩ := List.exists_cons_of_ne_nil hne
    rw [List.length_cons, List.replicate_succ, List.map_cons, List.cons_prefix_cons] at hextends
    cases hextends.1
  · -- only the first 64 columns found room
    have hlen : (resultSetFor columns).columnNames.length ≤ resultMaxColumns :=
      length_addColumns_le (by rw [resultSetCreate, if_neg (by omega)]; exact Nat.zero_le _)
    rw [hnames, List.length_map] at hlen
    exact hcount hlen

end Executor
end InventixDB
