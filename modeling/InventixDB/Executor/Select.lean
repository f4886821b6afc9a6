import InventixDB.Executor.Conditions
import InventixDB.Sql.Ast
import InventixDB.Storage.IndexScan
import Mathlib.Data.List.Perm.Basic

/-!
# Select — the access paths of a SELECT

A condition that compares `id` with a literal is answered by one lookup under the key the literal
gives, one on a column with an index by a scan of that index, and any other by a scan of the whole
store.  Every path passes what it finds to `scan_callback`, which tests the condition again.
-/

namespace InventixDB
namespace Executor

open Storage
open Sql
open Transaction

variable {n : Nat} [NeZero n]

/-! ## Subqueries -/

/-- A WHERE tree without what its subqueries say. -/
def condition : Expr → ASTExpr
  | .binary left op right => .binary (condition left) op (condition right)
  | .literal value => .literal value
  | .identifier value => .identifier value
  | .subquery _ _ => .subquery

/-- The columns of a subquery's scan: it reads their names only. -/
def namedColumns (columns : List ScanColumn) : List ScanColumn :=
  columns.map fun column => { column with type := none }

/-- The value a scan in capture mode takes: the first row that meets the condition gives its
column `target`, unless it is too short.  A column that does not exist is read before the row. -/
def capturedValue (store : KVStore n) (scan : ScanContext) (target : Option Nat) :
    Option (Option (Option CStr)) :=
  kvIterate store
    (fun key val captured => do
      match ← captured with
      | some value => some (some value)
      | none =>
          match ← scanCallback scan key val with
          | none => some none
          | some row => target.map fun col => some row[col]?) (some none)

/-- `execute_scalar_subquery`; its `NULL` is `none`. -/
def executeScalarSubquery (store : KVStore n) (session : SessionContext) (clauses : SelectClauses)
    (whereClause : Option ASTExpr) : Option (Option CStr) := do
  let key ← sysGenerateKeySchema session.currentDb clauses.tableName
  match kvGet store key with
  | none => some none
  | some schemaVal =>
      if schemaVal.type = .schema then
        let columns ← tableColumns schemaVal
        let target :=
          match clauses.columns.head? with
          | some column => getColIndex columns column.value
          | none => some 0
        let scan : ScanContext :=
          { database := session.currentDb
            tableName := clauses.tableName
            whereClause := whereClause
            columns := namedColumns columns }
        let captured ← capturedValue store scan target
        some (some ((captured.join).getD (CStr.lit "NULL")))
      else some none

/-- `resolve_where_clause`: a subquery on the right of the topmost operator becomes its value. -/
def resolveWhereClause (store : KVStore n) (session : SessionContext) : Expr → Option ASTExpr
  | .binary left op (.subquery clauses whereClause) => do
      let inner ←
        match whereClause with
        | none => some none
        | some cond => (resolveWhereClause store session cond).map some
      match ← executeScalarSubquery store session clauses inner with
      | some val => some (.binary (condition left) op (.literal val))
      | none => some (.binary (condition left) op .subquery)
  | cond => some (condition cond)

/-- The same of a WHERE clause that may be missing. -/
def resolveOptionalWhere (store : KVStore n) (session : SessionContext) :
    Option Expr → Option (Option ASTExpr)
  | none => some none
  | some cond => (resolveWhereClause store session cond).map some

/-! ## Access paths -/

inductive AccessPath
  | primaryKeyLookup (id : CStr)
  | indexScan (col op val : CStr)
  | fullTableScan
  deriving DecidableEq

/-- The path choice of `execute_select`. -/
def accessPath (store : KVStore n) (tableName : CStr) : Option ASTExpr → Option AccessPath
  | some (.binary left op (.literal val)) => do
      let col ← left.literalValue
      if col = CStr.lit "id" ∧ op = CStr.lit "=" then some (.primaryKeyLookup val)
      else if kvHasIndex store tableName col ∧ (op = CStr.lit "=" ∨ op = CStr.lit ">") then
        some (.indexScan col op val)
      else some .fullTableScan
  | _ => some .fullTableScan

/-- `index_scan_callback`: the scan for one value ends at the first other one. -/
def indexScanCallback (store : KVStore n) (scan : ScanContext) (stopVal : Option CStr)
    (pk val : CStr) (rows : List (List CStr)) : Option (List (List CStr) × Bool) :=
  if stopVal.any fun stop => val ≠ stop then some (rows, false)
  else
    match kvGet store pk with
    | none => some (rows, true)
    | some v => (scanCallback scan pk v).map fun row => (rows ++ row.toList, true)

/-- The rows a path hands on. -/
def scanPath (store : KVStore n) (scan : ScanContext) : AccessPath → Option (List (List CStr))
  | .primaryKeyLookup id => do
      let pkKey ← sysGenerateKeyTable scan.database scan.tableName id
      match kvGet store pkKey with
      | some val => (scanCallback scan pkKey val).map Option.toList
      | none => some []
  | .indexScan col op val =>
      let equality := op = CStr.lit "="
      kvScanIndexRange store scan.tableName col val equality
        (indexScanCallback store scan (if equality then some val else none)) []
  | .fullTableScan => scanTable store scan

/-- A SELECT on a table that exists, up to the rows its scan hands on. -/
structure SelectRun where
  scan : ScanContext
  path : AccessPath
  rows : List (List CStr)

/-- `execute_select`; the inner `none` is a table that does not exist. -/
def executeSelect (store : KVStore n) (session : SessionContext) (stmt : SelectStmt) :
    Option (Option SelectRun) := do
  let whereClause ← resolveOptionalWhere store session stmt.whereClause
  let path ← accessPath store stmt.clauses.tableName whereClause
  let key ← sysGenerateKeySchema session.currentDb stmt.clauses.tableName
  match kvGet store key with
  | none => some none
  | some schemaVal =>
      let columns ← tableColumns schemaVal
      let scan : ScanContext :=
        { database := session.currentDb
          tableName := stmt.clauses.tableName
          whereClause := whereClause
          columns := columns }
      let rows ← scanPath store scan path
      some (some { scan := scan, path := path, rows := rows })

/-! ## What each path finds -/

/-- The row a lookup of `pk` finds, if the condition is true of it. -/
def foundRow (store : KVStore n) (scan : ScanContext) (pk : CStr) : Option (List CStr) :=
  (kvGet store pk).bind fun val => matchingRow scan (pk, val)

/-- The callback goes on with what the lookup of the node's key finds. -/
theorem indexScanCallback_eq {store : KVStore n} {scan : ScanContext} {stopVal : Option CStr}
    {pk val : CStr} {rows after : List (List CStr)} {go : Bool}
    (hcall : indexScanCallback store scan stopVal pk val rows = some (after, go)) :
    (stopVal.any fun stop => val ≠ stop) = true ∧ after = rows ∧ go = false ∨
      (stopVal.any fun stop => val ≠ stop) = false ∧
        after = rows ++ (foundRow store scan pk).toList ∧ go = true := by
  unfold indexScanCallback at hcall
  cases hstop : stopVal.any fun stop => val ≠ stop with
  | true =>
      rw [hstop] at hcall
      cases hcall
      exact .inl ⟨rfl, rfl, rfl⟩
  | false =>
      rw [hstop] at hcall
      refine .inr ⟨rfl, ?_⟩
      cases hget : kvGet store pk with
      | none =>
          rw [hget] at hcall
          cases hcall
          simp [foundRow, hget]
      | some v =>
          rw [hget] at hcall
          obtain ⟨row, hrow, hafter⟩ := Option.map_eq_some_iff.mp hcall
          cases hafter
          rw [foundRow, hget, Option.bind_some, ← scanCallback_eq hrow]
          exact ⟨rfl, rfl⟩

/-- A scan for one value finds the rows its nodes lead to. -/
theorem scanNodes_equality {store : KVStore n} {scan : ScanContext} {val : CStr}
    {nodes : List (CStr × CStr)} {before rows : List (List CStr)}
    (hscan : scanNodes val true (indexScanCallback store scan (some val)) nodes before =
      some rows) :
    rows = before ++
      (nodes.takeWhile fun node => node.1 = val).filterMap fun node =>
        foundRow store scan node.2 := by
  induction nodes generalizing before with
  | nil =>
      cases hscan
      simp
  | cons node nodes ih =>
      rw [scanNodes, if_neg (by simp)] at hscan
      cases hcall : indexScanCallback store scan (some val) node.2 node.1 before with
      | none =>
          rw [hcall] at hscan
          cases hscan
      | some result =>
          obtain ⟨after, go⟩ := result
          rw [hcall] at hscan
          rcases indexScanCallback_eq hcall with ⟨hstop, rfl, rfl⟩ | ⟨hstop, rfl, rfl⟩
          · have hne : node.1 ≠ val := by simpa using hstop
            cases hscan
            simp [hne]
          · have heq : node.1 = val := by simpa using hstop
            rw [ih hscan, List.takeWhile_cons_of_pos (by simpa using heq), List.append_assoc]
            cases hfound : foundRow store scan node.2 with
            | none => simp [hfound]
            | some row => simp [hfound]

/-- A scan for larger values finds the rows the nodes of other values lead to. -/
theorem scanNodes_greater {store : KVStore n} {scan : ScanContext} {val : CStr}
    {nodes : List (CStr × CStr)} {before rows : List (List CStr)}
    (hscan : scanNodes val false (indexScanCallback store scan none) nodes before = some rows) :
    rows = before ++
      (nodes.filter fun node => node.1 ≠ val).filterMap fun node =>
        foundRow store scan node.2 := by
  induction nodes generalizing before with
  | nil =>
      cases hscan
      simp
  | cons node nodes ih =>
      rw [scanNodes] at hscan
      by_cases heq : node.1 = val
      · rw [if_pos (by simpa using heq)] at hscan
        rw [ih hscan, List.filter_cons_of_neg (by simpa using heq)]
      · rw [if_neg (by simpa using heq)] at hscan
        cases hcall : indexScanCallback store scan none node.2 node.1 before with
        | none =>
            rw [hcall] at hscan
            cases hscan
        | some result =>
            obtain ⟨after, go⟩ := result
            rw [hcall] at hscan
            rcases indexScanCallback_eq hcall with ⟨hstop, _, _⟩ | ⟨_, rfl, rfl⟩
            · cases hstop
            · rw [ih hscan, List.filter_cons_of_pos (by simpa using heq), List.append_assoc]
              cases hfound : foundRow store scan node.2 with
              | none => simp [hfound]
              | some row => simp [hfound]

/-- The keys of the index nodes a path visits. -/
def visitedKeys (store : KVStore n) (scan : ScanContext) (col op val : CStr) : List CStr :=
  (scannedNodes store scan.tableName col val (op = CStr.lit "=")).map Prod.snd

/-- A lookup hands on the row it finds. -/
theorem lookup_rows {store : KVStore n} {scan : ScanContext} {id : CStr}
    {rows : List (List CStr)} (hscan : scanPath store scan (.primaryKeyLookup id) = some rows) :
    ∃ pkKey, sysGenerateKeyTable scan.database scan.tableName id = some pkKey ∧
      rows = (foundRow store scan pkKey).toList := by
  obtain ⟨pkKey, hkey, hscan⟩ := Option.bind_eq_some_iff.mp hscan
  refine ⟨pkKey, hkey, ?_⟩
  cases hget : kvGet store pkKey with
  | none =>
      rw [hget] at hscan
      cases hscan
      simp [foundRow, hget]
  | some val =>
      rw [hget] at hscan
      obtain ⟨row, hrow, rfl⟩ := Option.map_eq_some_iff.mp hscan
      rw [foundRow, hget, Option.bind_some, ← scanCallback_eq hrow]

/-- An index scan hands on the rows its nodes lead to. -/
theorem indexScan_rows {store : KVStore n} {scan : ScanContext} {col op val : CStr}
    {rows : List (List CStr)} (hscan : scanPath store scan (.indexScan col op val) = some rows) :
    rows = (visitedKeys store scan col op val).filterMap (foundRow store scan) := by
  simp only [scanPath, kvScanIndexRange] at hscan
  simp only [visitedKeys, scannedNodes, List.filterMap_map]
  by_cases heq : op = CStr.lit "="
  · simp only [heq, decide_true, if_true] at hscan ⊢
    exact scanNodes_equality hscan
  · simp only [heq, decide_false, Bool.false_eq_true, if_false] at hscan ⊢
    exact scanNodes_greater hscan

/-! ## When a path finds every row -/

/-- A path can find the rows that meet the condition.  For a lookup, none of them stands in
another slot than the one the key of the literal leads to; for an index scan, as many visited
nodes lead to each of them as the table holds it. -/
def PathFits (store : KVStore n) (scan : ScanContext) : AccessPath → Prop
  | .primaryKeyLookup id =>
      ∀ pkKey, sysGenerateKeyTable scan.database scan.tableName id = some pkKey →
        ∀ i e, store.entries i = some e → (matchingRow scan e).isSome = true →
          Lib.OpenAddressing.probe CStr.slot store.entries pkKey = .hit i
  | .indexScan col op val =>
      ∀ row, ((visitedKeys store scan col op val).countP
          fun pk => foundRow store scan pk = some row) =
        (Lib.OpenAddressing.toList store.entries).countP fun e => matchingRow scan e = some row
  | .fullTableScan => True

/-- The row in one slot, if the condition is true of it. -/
def slotRow (store : KVStore n) (scan : ScanContext) (i : Fin n) : Option (List CStr) :=
  (store.entries i).bind (matchingRow scan)

omit [NeZero n] in
theorem matchingRows_eq (store : KVStore n) (scan : ScanContext) :
    matchingRows store scan = (List.finRange n).filterMap (slotRow store scan) := by
  unfold matchingRows Lib.OpenAddressing.toList
  rw [List.filterMap_filterMap]
  rfl

/-- What is found in a list beside one element that gives `b`. -/
theorem filterMap_perm_singleton {α β : Type*} [DecidableEq α] {f : α → Option β} {l : List α}
    {a : α} {b : β} (hnodup : l.Nodup) (ha : a ∈ l) (hb : f a = some b) :
    [b].Perm (l.filterMap f) ↔ ∀ x ∈ l, (f x).isSome = true → x = a := by
  have hsplit : (l.filterMap f).Perm (b :: (l.erase a).filterMap f) := by
    have hperm := (List.perm_cons_erase ha).filterMap f
    rwa [List.filterMap_cons_some hb] at hperm
  have hrest : [b].Perm (l.filterMap f) ↔ (l.erase a).filterMap f = [] := by
    constructor
    · intro h
      exact (List.perm_nil.mp ((List.perm_cons b).mp (h.trans hsplit)).symm)
    · intro h
      rw [h] at hsplit
      exact hsplit.symm
  rw [hrest, List.filterMap_eq_nil_iff]
  constructor
  · intro h x hx hsome
    by_contra hne
    rw [h x ((List.mem_erase_of_ne hne).mpr hx)] at hsome
    cases hsome
  · intro h x hx
    obtain ⟨hne, hmem⟩ := hnodup.mem_erase_iff.mp hx
    cases hfx : f x with
    | none => rfl
    | some y => exact absurd (h x hmem (by rw [hfx]; rfl)) hne

omit [NeZero n] in
theorem isSome_slotRow {store : KVStore n} {scan : ScanContext} {P : Fin n → Prop} :
    (∀ i e, store.entries i = some e → (matchingRow scan e).isSome = true → P i) ↔
      ∀ i, (slotRow store scan i).isSome = true → P i := by
  constructor
  · intro h i hi
    cases he : store.entries i with
    | none =>
        rw [slotRow, he] at hi
        cases hi
    | some e =>
        rw [slotRow, he] at hi
        exact h i e he hi
  · intro h i e he hsome
    refine h i ?_
    rw [slotRow, he]
    exact hsome

/-- A lookup finds the rows that meet the condition exactly if none stands in another slot. -/
theorem lookup_perm_iff (store : KVStore n) (scan : ScanContext) (pkKey : CStr) :
    (foundRow store scan pkKey).toList.Perm (matchingRows store scan) ↔
      ∀ i, (slotRow store scan i).isSome = true →
        Lib.OpenAddressing.probe CStr.slot store.entries pkKey = .hit i := by
  rw [matchingRows_eq]
  have hnone : foundRow store scan pkKey = none →
      ((foundRow store scan pkKey).toList.Perm ((List.finRange n).filterMap (slotRow store scan)) ↔
        ∀ i, slotRow store scan i = none) := by
    intro hfound
    rw [hfound, Option.toList_none, List.nil_perm, List.filterMap_eq_nil_iff]
    simp
  cases hget : kvGet store pkKey with
  | none =>
      have hfound : foundRow store scan pkKey = none := by rw [foundRow, hget]; rfl
      have hmiss := Lib.OpenAddressing.lookup_eq_none_iff.mp hget
      rw [hnone hfound]
      constructor
      · intro h i hi
        rw [h i] at hi
        cases hi
      · intro h i
        cases hrow : slotRow store scan i with
        | none => rfl
        | some row => exact absurd (h i (by rw [hrow]; rfl)) (hmiss i)
  | some val =>
      obtain ⟨j, hprobe, hj⟩ := Lib.OpenAddressing.lookup_eq_some_iff_hit.mp hget
      have hslot : slotRow store scan j = foundRow store scan pkKey := by
        rw [slotRow, hj, foundRow, hget]
        rfl
      have hhit : ∀ i, Lib.OpenAddressing.probe CStr.slot store.entries pkKey = .hit i ↔ i = j := by
        intro i
        rw [hprobe, Lib.OpenAddressing.Probe.hit.injEq]
        exact eq_comm
      simp only [hhit]
      cases hfound : foundRow store scan pkKey with
      | none =>
          rw [← hfound, hnone hfound]
          constructor
          · intro h i hi
            rw [h i] at hi
            cases hi
          · intro h i
            cases hrow : slotRow store scan i with
            | none => rfl
            | some row =>
                have hij := h i (by rw [hrow]; rfl)
                rw [hij, hslot, hfound] at hrow
                cases hrow
      | some row =>
          have hsingle := filterMap_perm_singleton (f := slotRow store scan)
            (List.nodup_finRange n) (List.mem_finRange j) (hslot.trans hfound)
          rw [Option.toList_some, hsingle]
          simp

/-- A path hands on exactly the rows for which the condition is true if it can find them. -/
theorem scanPath_perm_iff {store : KVStore n} {scan : ScanContext} {path : AccessPath}
    {rows : List (List CStr)} (hscan : scanPath store scan path = some rows) :
    rows.Perm (matchingRows store scan) ↔ PathFits store scan path := by
  cases path with
  | primaryKeyLookup id =>
      obtain ⟨pkKey, hkey, rfl⟩ := lookup_rows hscan
      rw [lookup_perm_iff, ← isSome_slotRow]
      constructor
      · intro h pkKey' hkey'
        cases hkey.symm.trans hkey'
        exact h
      · intro h
        exact h pkKey hkey
  | indexScan col op val =>
      rw [indexScan_rows hscan, List.perm_iff_count]
      simp only [PathFits, matchingRows, List.count_filterMap, beq_eq_decide]
  | fullTableScan =>
      rw [scanTable_eq hscan]
      exact ⟨fun _ => trivial, fun _ => List.Perm.refl _⟩

/-- What a SELECT hands on is what the access path it chooses finds in the table it names. -/
theorem executeSelect_eq_some {store : KVStore n} {session : SessionContext}
    {stmt : SelectStmt} {run : SelectRun}
    (hrun : executeSelect store session stmt = some (some run)) :
    accessPath store stmt.clauses.tableName run.scan.whereClause = some run.path ∧
      scanPath store run.scan run.path = some run.rows ∧
        run.scan.database = session.currentDb ∧ run.scan.tableName = stmt.clauses.tableName := by
  unfold executeSelect at hrun
  obtain ⟨whereClause, _, hrun⟩ := Option.bind_eq_some_iff.mp hrun
  obtain ⟨path, hpath, hrun⟩ := Option.bind_eq_some_iff.mp hrun
  obtain ⟨key, _, hrun⟩ := Option.bind_eq_some_iff.mp hrun
  cases hget : kvGet store key with
  | none =>
      rw [hget] at hrun
      cases hrun
  | some schemaVal =>
      rw [hget] at hrun
      obtain ⟨columns, _, hrun⟩ := Option.bind_eq_some_iff.mp hrun
      obtain ⟨rows, hrows, hrun⟩ := Option.bind_eq_some_iff.mp hrun
      cases hrun
      exact ⟨hpath, hrows, rfl, rfl⟩

/-- A SELECT hands on exactly the rows for which its condition is true if and only if its access
path can find them. -/
theorem executeSelect_perm_iff (store : KVStore n) (session : SessionContext) (stmt : SelectStmt)
    (run : SelectRun) (hrun : executeSelect store session stmt = some (some run)) :
    run.rows.Perm (matchingRows store run.scan) ↔ PathFits store run.scan run.path :=
  scanPath_perm_iff (executeSelect_eq_some hrun).2.1

/-! ## A table whose key is not `id` -/

/-- The server after a table whose key is `name` has been made and two rows inserted. -/
def nameKeyedDb : Db 1024 :=
  ((executeQuery serverInit publicSession (.createTable (CStr.lit "t")
      [{ name := CStr.lit "name", type := CStr.lit "TEXT", isPk := true },
        { name := CStr.lit "id", type := CStr.lit "INT", isPk := false }])).bind fun r =>
    (executeQuery r.1 r.2 (.insert (CStr.lit "t")
      [[CStr.lit "a", CStr.lit "5"], [CStr.lit "5", CStr.lit "7"]])).map Prod.fst).getD serverInit

/-- `SELECT * FROM t WHERE col = val` -/
def selectWhere (col val : String) : SelectStmt where
  clauses :=
    { tableName := CStr.lit "t"
      columns := [{ value := CStr.lit "*", funcType := .none }]
      groupBy := none
      orderColumns := []
      limit := 0
      offset := 0 }
  whereClause :=
    some (.binary (.identifier (CStr.lit col)) (CStr.lit "=") (.literal (CStr.lit val)))

theorem executeSelect_by_name :
    ∃ run, executeSelect nameKeyedDb.store publicSession (selectWhere "name" "a") =
        some (some run) ∧
      (run.rows.Perm (matchingRows nameKeyedDb.store run.scan) ↔
        PathFits nameKeyedDb.store run.scan run.path) := by
  obtain ⟨run, hrun⟩ := Option.isSome_iff_exists.mp
    (show ((executeSelect nameKeyedDb.store publicSession (selectWhere "name" "a")).join).isSome =
      true by decide +kernel)
  have hrun : executeSelect nameKeyedDb.store publicSession (selectWhere "name" "a") =
      some (some run) := Option.join_eq_some_iff.mp hrun
  exact ⟨run, hrun, executeSelect_perm_iff _ _ _ run hrun⟩

/-- The row whose `id` is 5 is not found by that, as its key is its name. -/
theorem executeSelect_misses_id :
    ∃ run, executeSelect nameKeyedDb.store publicSession (selectWhere "id" "5") =
        some (some run) ∧
      run.rows = [] ∧
      matchingRows nameKeyedDb.store run.scan = [[CStr.lit "a", CStr.lit "5"]] ∧
      ¬ run.rows.Perm (matchingRows nameKeyedDb.store run.scan) := by
  have hview : ((executeSelect nameKeyedDb.store publicSession (selectWhere "id" "5")).join).map
      (fun run => (run.rows, matchingRows nameKeyedDb.store run.scan)) =
        some ([], [[CStr.lit "a", CStr.lit "5"]]) := by decide +kernel
  obtain ⟨run, hrun, hfound⟩ := Option.map_eq_some_iff.mp hview
  obtain ⟨hrows, hmatching⟩ := Prod.mk.inj hfound
  refine ⟨run, Option.join_eq_some_iff.mp hrun, hrows, hmatching, ?_⟩
  rw [hrows, hmatching]
  decide

end Executor
end InventixDB
