import InventixDB.Executor.Statements
import InventixDB.Storage.Double

/-!
# Conditions — WHERE clauses on the rows of a table

`evaluate_condition` compares a column of a row with a literal, as numbers or as texts by the type
of the column.  A scan passes it every row whose key has the prefix of the table.
-/

namespace InventixDB
namespace Executor

open Storage
open Transaction

variable {n : Nat} [NeZero n]

/-! ## Columns -/

/-- A column as a scan caches it; the scan of a subquery reads no types. -/
structure ScanColumn where
  name : CStr
  type : Option CStr
  deriving DecidableEq

/-- `name:type[:PK]`; without a colon the piece is the name of a text column. -/
def scanColumn (pair : CStr) : ScanColumn :=
  match CStr.breakAt 58 pair with
  | some (name, typePart) =>
      { name := name
        type :=
          match CStr.breakAt 58 typePart with
          | some (type, _) => some type
          | none => some typePart }
  | none => { name := pair, type := some (CStr.lit "STRING") }

/-- The columns of a schema text, one for each semicolon; where there are fewer pieces than
semicolons the others are not initialized. -/
def scanColumns (schema : CStr) : Option (List ScanColumn) :=
  let count := schema.val.count 59
  let pieces := (CStr.tokens 59 schema).take count
  if pieces.length = count then some (pieces.map scanColumn) else none

/-- The columns a scan of a table knows; only a value of type SCHEMA has any. -/
def tableColumns (schemaVal : Value) : Option (List ScanColumn) :=
  if schemaVal.type = .schema then (CStr.ofBuffer? schemaVal.data).bind scanColumns else some []

/-- `get_col_index` -/
def getColIndex (columns : List ScanColumn) (colName : CStr) : Option Nat :=
  columns.findIdx? fun column => column.name = colName

/-! ## Conditions -/

def isNumericType (type : CStr) : Bool :=
  ["INT", "FLOAT", "INTEGER", "DOUBLE"].any fun t => CStr.sameIgnoringCase type (CStr.lit t)

/-- One comparison; an operator that is not known holds of nothing. -/
def compareCell (type op cellVal rightVal : CStr) : Bool :=
  if isNumericType type then
    let lv := CStr.atof cellVal
    let rv := CStr.atof rightVal
    if op = CStr.lit "=" then lv.eq rv
    else if op = CStr.lit ">" then rv.lt lv
    else if op = CStr.lit "<" then lv.lt rv
    else false
  else
    if op = CStr.lit "=" then cellVal = rightVal
    else if op = CStr.lit ">" then rightVal.val < cellVal.val
    else if op = CStr.lit "<" then cellVal.val < rightVal.val
    else false

/-- `evaluate_condition` -/
def evaluateCondition (columns : List ScanColumn) (row : List CStr) : ASTExpr → Option Bool
  | .binary left op right =>
      if op = CStr.lit "AND" then do
        if ← evaluateCondition columns row left then evaluateCondition columns row right
        else some false
      else if op = CStr.lit "OR" then do
        if ← evaluateCondition columns row left then some true
        else evaluateCondition columns row right
      else do
        let colName ← left.literalValue
        match getColIndex columns colName with
        | none => some false
        | some colIdx =>
            match columns[colIdx]?, row[colIdx]?, right with
            | some column, some cellVal, .literal rightVal =>
                column.type.map fun type => compareCell type op cellVal rightVal
            | _, _, _ => some false
  | _ => some true

/-- A statement without a WHERE clause takes every row. -/
def evaluateWhere (columns : List ScanColumn) (whereClause : Option ASTExpr) (row : List CStr) :
    Option Bool :=
  match whereClause with
  | none => some true
  | some cond => evaluateCondition columns row cond

/-! ## Scans -/

/-- What a scan knows of its table. -/
structure ScanContext where
  database : CStr
  tableName : CStr
  whereClause : Option ASTExpr
  columns : List ScanColumn
  deriving DecidableEq

/-- The prefix of the keys of a table, in a 256-byte buffer. -/
def ScanContext.keyPrefix (scan : ScanContext) : Option CStr :=
  CStr.sprintf 256
    (CStr.lit "DB:" ++ scan.database ++ CStr.lit ":TBL:" ++ scan.tableName ++ CStr.lit ":")

/-- The row `scan_callback` hands on for one entry, if it does. -/
def scanCallback (scan : ScanContext) (key : CStr) (val : Value) : Option (Option (List CStr)) := do
  let keyPrefix ← scan.keyPrefix
  if CStr.startsWith keyPrefix key then
    match ← rowDeserialize val.data with
    | none => some none
    | some tokens =>
        if ← evaluateWhere scan.columns scan.whereClause tokens then some (some tokens)
        else some none
  else some none

/-- `kv_iterate(store, scan_callback, &ctx)` -/
def scanTable (store : KVStore n) (scan : ScanContext) : Option (List (List CStr)) :=
  kvIterate store
    (fun key val rows => do
      let rows ← rows
      let row ← scanCallback scan key val
      some (rows ++ row.toList)) (some [])

/-! ## The rows of a table -/

/-- The row an entry holds: its key has the prefix of the table, and its value is a row. -/
def tableRow (database tableName : CStr) (entry : CStr × Value) : Option (List CStr) :=
  if CStr.startsWith
      (CStr.lit "DB:" ++ database ++ CStr.lit ":TBL:" ++ tableName ++ CStr.lit ":") entry.1 then
    (rowDeserialize entry.2.data).join
  else none

/-- The row an entry holds, if the condition is true of it. -/
def matchingRow (scan : ScanContext) (entry : CStr × Value) : Option (List CStr) :=
  (tableRow scan.database scan.tableName entry).filter fun row =>
    evaluateWhere scan.columns scan.whereClause row = some true

/-- The rows of a table for which the condition is true, in slot order. -/
def matchingRows (store : KVStore n) (scan : ScanContext) : List (List CStr) :=
  (Lib.OpenAddressing.toList store.entries).filterMap (matchingRow scan)

/-- `scan_callback` hands on exactly the rows for which the condition is true. -/
theorem scanCallback_eq {scan : ScanContext} {key : CStr} {val : Value}
    {row : Option (List CStr)} (hscan : scanCallback scan key val = some row) :
    row = matchingRow scan (key, val) := by
  obtain ⟨keyPrefix, hlead, hscan⟩ := Option.bind_eq_some_iff.mp hscan
  obtain ⟨rfl, _⟩ := CStr.sprintf_eq_some hlead
  unfold matchingRow tableRow
  split at hscan
  · next hkey =>
      rw [if_pos hkey]
      obtain ⟨tokens, htokens, hscan⟩ := Option.bind_eq_some_iff.mp hscan
      rw [htokens]
      cases tokens with
      | none =>
          cases hscan
          rfl
      | some tokens =>
          obtain ⟨result, hresult, hscan⟩ := Option.bind_eq_some_iff.mp hscan
          cases result with
          | true =>
              cases hscan
              exact (Option.filter_some_pos (by simp [hresult])).symm
          | false =>
              cases hscan
              exact (Option.filter_some_neg (by simp [hresult])).symm
  · next hkey =>
      cases hscan
      rw [if_neg hkey]
      rfl

omit [NeZero n] in
/-- A scan of the whole store finds the rows for which the condition is true. -/
theorem scanTable_eq {store : KVStore n} {scan : ScanContext} {rows : List (List CStr)}
    (hscan : scanTable store scan = some rows) : rows = matchingRows store scan := by
  have hfold : ∀ (entries : List (CStr × Value)) (before : Option (List (List CStr)))
      (rows : List (List CStr)),
      entries.foldl (fun rows e => do
        let rows ← rows
        let row ← scanCallback scan e.1 e.2
        some (rows ++ row.toList)) before = some rows →
      ∃ first, before = some first ∧ rows = first ++ entries.filterMap (matchingRow scan) := by
    intro entries
    induction entries with
    | nil => intro before rows h; exact ⟨rows, h, by simp⟩
    | cons e entries ih =>
        intro before rows h
        obtain ⟨first, hfirst, hrows⟩ := ih _ rows h
        obtain ⟨earlier, hbefore, hfirst⟩ := Option.bind_eq_some_iff.mp hfirst
        obtain ⟨row, hrow, hfirst⟩ := Option.bind_eq_some_iff.mp hfirst
        cases hfirst
        refine ⟨earlier, hbefore, ?_⟩
        rw [hrows, scanCallback_eq hrow, List.append_assoc]
        cases hmatch : matchingRow scan e with
        | none => simp [hmatch]
        | some r => simp [hmatch]
  rw [scanTable, kvIterate_eq_foldl] at hscan
  obtain ⟨first, hfirst, hrows⟩ := hfold _ _ rows hscan
  cases hfirst
  exact hrows

end Executor
end InventixDB
