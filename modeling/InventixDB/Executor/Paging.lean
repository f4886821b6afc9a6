import InventixDB.Executor.Output

/-!
# Paging — ORDER BY and LIMIT against the plain query

A query with ORDER BY should print the rows of the query without it in another order, and one with
LIMIT and OFFSET a page of these.  Both print by way of the result set, whose columns are set up
twice.
-/

namespace InventixDB
namespace Executor

open Storage
open Sql

variable {n : Nat} [NeZero n]

/-! ## The queries compared -/

/-- The query without LIMIT and OFFSET. -/
def unpaged (stmt : SelectStmt) : SelectStmt :=
  { stmt with clauses := { stmt.clauses with limit := -1, offset := 0 } }

/-- The query without ORDER BY, LIMIT and OFFSET. -/
def unordered (stmt : SelectStmt) : SelectStmt :=
  { stmt with clauses := { stmt.clauses with orderColumns := [], limit := -1, offset := 0 } }

/-- The rows `offset + 1` to `offset + limit`; a negative limit is none. -/
def pageOf {α : Type*} (clauses : SelectClauses) (rows : List α) : List α :=
  if 0 ≤ clauses.limit then (rows.drop clauses.offset.toNat).take clauses.limit.toNat else rows

/-- Ordering prints the same table in another order, and paging a page of that. -/
def Rearranges (store : KVStore n) (session : SessionContext) (stmt : SelectStmt) : Prop :=
  ∀ plain, selectOutput store session (unordered stmt) = some (some plain) →
    ∃ ordered, selectOutput store session (unpaged stmt) = some (some ordered) ∧
      ordered.header = plain.header ∧ ordered.rows.Perm plain.rows ∧
      ∃ paged, selectOutput store session stmt = some (some paged) ∧
        paged.header = plain.header ∧ paged.rows = pageOf stmt.clauses ordered.rows

/-! ## The output of one scan -/

/-- The scan and the set-up of a query do not depend on its order and page. -/
theorem selectOutput_eq {store : KVStore n} {session : SessionContext} {stmt : SelectStmt}
    {run : SelectRun} (hrun : executeSelect store session stmt = some (some run)) :
    ∃ schemaVal, schemaValue store session stmt.clauses.tableName = some schemaVal ∧
      ∀ order limit offset,
      selectOutput store session
          { stmt with
            clauses :=
              { stmt.clauses with orderColumns := order, limit := limit, offset := offset } } =
        (outputOf (selectView schemaVal run.scan.columns stmt.clauses)
          { stmt.clauses with orderColumns := order, limit := limit, offset := offset }
          run.rows).map some := by
  have hschema : (schemaValue store session stmt.clauses.tableName).isSome = true := by
    unfold executeSelect at hrun
    obtain ⟨whereClause, _, hrun⟩ := Option.bind_eq_some_iff.mp hrun
    obtain ⟨path, _, hrun⟩ := Option.bind_eq_some_iff.mp hrun
    obtain ⟨key, hkey, hrun⟩ := Option.bind_eq_some_iff.mp hrun
    rw [schemaValue, hkey, Option.bind_some]
    cases hget : kvGet store key with
    | none =>
        rw [hget] at hrun
        cases hrun
    | some schemaVal => rfl
  obtain ⟨schemaVal, hschema⟩ := Option.isSome_iff_exists.mp hschema
  refine ⟨schemaVal, hschema, fun order limit offset => ?_⟩
  have hsame : executeSelect store session
      { stmt with
        clauses := { stmt.clauses with orderColumns := order, limit := limit, offset := offset } } =
      some (some run) := hrun
  rw [selectOutput, hsame]
  dsimp only [Option.bind_eq_bind, Option.bind_some]
  rw [hschema]
  rfl

/-! ## When order and page only rearrange -/

/-- The page holds only rows without values, and as many rows with values lie on the page of
these. -/
def BlankPage (clauses : SelectClauses) (found : List (List CStr)) : Prop :=
  (∀ tokens ∈ pageOf clauses found, tokens = []) ∧
    (pageOf clauses (found.filter (· ≠ []))).length = (pageOf clauses found).length

/-- A query with an order or a limit has no column to show, and nothing of its rows to print. -/
def PageFits (columns : List (CStr × Option CStr)) (clauses : SelectClauses)
    (found : List (List CStr)) : Prop :=
  if clauses.orderColumns ≠ [] then columns = [] ∧ found = []
  else if 0 < clauses.limit then columns = [] ∧ BlankPage clauses found
  else clauses.limit < 0 ∨ found = []

def RearrangeFits (store : KVStore n) (session : SessionContext) (stmt : SelectStmt) : Prop :=
  ∀ run schemaVal, executeSelect store session stmt = some (some run) →
    schemaValue store session stmt.clauses.tableName = some schemaVal →
    PageFits (selectView schemaVal run.scan.columns stmt.clauses).resultColumns stmt.clauses
      run.rows

theorem pageOf_map {α β : Type*} (clauses : SelectClauses) (f : α → β) (rows : List α) :
    pageOf clauses (rows.map f) = (pageOf clauses rows).map f := by
  unfold pageOf
  split
  · rw [List.map_take, List.map_drop]
  · rfl

section View

variable {view : SelectView} {clauses : SelectClauses} {found : List (List CStr)}
  {plain : ResultPage}

/-- Without columns the rows with values are printed, each as an empty one. -/
theorem bufferedPage_of_no_columns (hcolumns : view.resultColumns = [])
    (hprojection : view.projection = []) (hgrouping : view.grouping = none)
    (hfew : clauses.orderColumns = [] ∨ found = []) :
    bufferedPage view clauses found =
      some
        { message := view.message
          header := []
          rows :=
            (resultSetLimit
              { columnNames := [], columnTypes := [], rows := found.filter (· ≠ []) }
              clauses.limit clauses.offset).rows.map fun _ => [] } := by
  have hvalues : found.map view.rowValues = found := by
    conv_rhs => rw [← List.map_id found]
    exact List.map_congr_left fun tokens _ => if_pos hprojection
  have hspecs : ∀ rs : ResultSet, rs.columnNames = [] → ∀ orders : List (CStr × Bool),
      ∃ specs, orders.mapM (sortSpec rs) = some specs ∧ (orders = [] → specs = []) := by
    intro rs hnames orders
    induction orders with
    | nil => exact ⟨[], rfl, fun _ => rfl⟩
    | cons order orders ih =>
        obtain ⟨specs, hspecs, _⟩ := ih
        obtain ⟨spec, hspec⟩ : ∃ spec, sortSpec rs order = some spec := by
          rw [sortSpec, hnames]
          exact ⟨_, rfl⟩
        refine ⟨spec :: specs, ?_, fun hnil => absurd hnil (List.cons_ne_nil _ _)⟩
        rw [List.mapM_cons, hspec, hspecs]
        rfl
  obtain ⟨specs, hmap, hnil⟩ := hspecs
    { columnNames := [], columnTypes := [], rows := found.filter (· ≠ []) } rfl clauses.orderColumns
  rw [bufferedPage, bufferRows_of_ungrouped hgrouping, hvalues, hcolumns, resultSetFor_nil]
  dsimp only [Option.bind_eq_bind, Option.bind_some]
  rw [hmap, Option.bind_some, resultSetSortMulti, if_pos]
  · simp only [Option.bind_some, columnNames_resultSetLimit]
    rfl
  · rcases hfew with horder | hfound
    · exact .inl (hnil horder)
    · exact .inr (by simp [hfound])

/-- What a plain query prints where there are no columns. -/
theorem rows_streamedPage_of_no_columns (hprojection : view.projection = [])
    (hgrouping : view.grouping = none) (hplain : streamedPage view found = some plain) :
    plain.rows = found.map fun tokens => tokens.map printCell := by
  rw [streamedPage, streamedRows, hgrouping] at hplain
  cases hplain
  exact List.map_congr_left fun tokens _ => by rw [SelectView.rowValues, if_pos hprojection]

/-- Buffered output with the header of the plain query has no columns. -/
theorem no_columns_of_header {page : ResultPage} (hplain : streamedPage view found = some plain)
    (hpage : bufferedPage view clauses found = some page) (hheader : page.header = plain.header) :
    view.resultColumns = [] := by
  obtain ⟨rs, sorted, _, _, _, hbuffered, _⟩ := bufferedPage_eq_some hpage
  rw [hbuffered, (streamedPage_eq_some hplain).1] at hheader
  by_contra hne
  exact columnNames_resultSetFor_ne hne hheader

/-- With a limit and no columns: the page printed is the page of the plain query if and only if
there is nothing on it to print. -/
theorem limited_rows_iff (hlimit : 0 < clauses.limit) :
    ((resultSetLimit { columnNames := [], columnTypes := [], rows := found.filter (· ≠ []) }
        clauses.limit clauses.offset).rows.map fun _ => ([] : List CStr)) =
      pageOf clauses (found.map fun tokens => tokens.map printCell) ↔ BlankPage clauses found := by
  have hpage : ∀ rows : List (List CStr),
      pageOf clauses rows = (rows.drop clauses.offset.toNat).take clauses.limit.toNat :=
    fun rows => if_pos hlimit.le
  rw [rows_resultSetLimit hlimit, ← hpage, pageOf_map]
  constructor
  · intro hrows
    refine ⟨fun tokens hmem => ?_, ?_⟩
    · have hprinted : tokens.map printCell ∈
          (pageOf clauses (found.filter (· ≠ []))).map fun _ => ([] : List CStr) := by
        rw [hrows]
        exact List.mem_map_of_mem hmem
      obtain ⟨_, _, hnil⟩ := List.mem_map.mp hprinted
      exact List.map_eq_nil_iff.mp hnil.symm
    · have hlen := congrArg List.length hrows
      rwa [List.length_map, List.length_map] at hlen
  · rintro ⟨hblank, hlen⟩
    have hprinted : (pageOf clauses found).map (fun tokens => tokens.map printCell) =
        (pageOf clauses found).map fun _ => [] :=
      List.map_congr_left fun tokens hmem => by rw [hblank tokens hmem, List.map_nil]
    rw [hprinted, List.map_const', List.map_const', hlen]

/-- With ORDER BY and no columns: what is printed is a rearrangement of the plain output only if
there are no rows. -/
theorem found_eq_nil_of_ordered {page : ResultPage} (hprojection : view.projection = [])
    (hcolumns : view.resultColumns = [])
    (hgrouping : view.grouping = none) (hplain : streamedPage view found = some plain)
    (hlimit : clauses.limit = -1 ∧ clauses.offset = 0)
    (hpage : bufferedPage view clauses found = some page) (hperm : page.rows.Perm plain.rows) :
    found = [] := by
  obtain ⟨rs, sorted, hrs, _, hsorted, _, hrows⟩ := bufferedPage_eq_some hpage
  rw [bufferRows_of_ungrouped hgrouping] at hrs
  cases hrs
  rw [hcolumns, hlimit.1, hlimit.2] at hrows
  have hlen : (found.map view.rowValues).length =
      ((found.map view.rowValues).filter (· ≠ [])).length := by
    have hprinted := hperm.length_eq
    rw [hrows, rows_streamedPage_of_no_columns hprojection hgrouping hplain, List.length_map,
      List.length_map] at hprinted
    rw [← hsorted.length_eq, List.length_map, ← hprinted]
    rfl
  have hvalues := List.length_filter_eq_length_iff.mp hlen.symm
  cases found with
  | nil => rfl
  | cons tokens found =>
      -- the row has a value, but every row printed is empty
      exfalso
      have htokens := hvalues _ (List.mem_map_of_mem List.mem_cons_self)
      rw [SelectView.rowValues, if_pos hprojection, decide_eq_true_eq] at htokens
      have hmem : tokens.map printCell ∈ page.rows := by
        rw [hperm.mem_iff, rows_streamedPage_of_no_columns hprojection hgrouping hplain]
        exact List.mem_map_of_mem List.mem_cons_self
      rw [hrows] at hmem
      obtain ⟨_, _, hnil⟩ := List.mem_map.mp hmem
      exact htokens (List.map_eq_nil_iff.mp hnil.symm)

/-- Both queries with an order print the same page if there are no columns and no rows. -/
theorem bufferedPage_empty (hcolumns : view.resultColumns = []) (hprojection : view.projection = [])
    (hgrouping : view.grouping = none) (hfound : found = []) :
    bufferedPage view clauses found =
      some { message := view.message, header := [], rows := [] } := by
  rw [bufferedPage_of_no_columns hcolumns hprojection hgrouping (.inr hfound), hfound]
  have hnone : (resultSetLimit { columnNames := [], columnTypes := [], rows := [] }
      clauses.limit clauses.offset).rows = [] := by
    unfold resultSetLimit
    split <;> simp
  simp [hnone]

/-- For the rows one scan finds: order and page rearrange them if and only if the query fits. -/
theorem page_rearranges_iff
    (hview : view.resultColumns = [] → view.projection = [] ∧ view.grouping = none)
    (hplain : streamedPage view found = some plain) :
    (∃ ordered, outputOf view { clauses with limit := -1, offset := 0 } found = some ordered ∧
      ordered.header = plain.header ∧ ordered.rows.Perm plain.rows ∧
      ∃ paged, outputOf view clauses found = some paged ∧
        paged.header = plain.header ∧ paged.rows = pageOf clauses ordered.rows) ↔
      PageFits view.resultColumns clauses found := by
  obtain ⟨hheader, hrows⟩ := streamedPage_eq_some hplain
  by_cases horder : clauses.orderColumns = []
  · -- the ordered query is the plain one
    have hordered : outputOf view { clauses with limit := -1, offset := 0 } found = some plain := by
      rw [outputOf, if_neg (by simp [needsBuffering, horder]), hplain]
    rw [PageFits, if_neg (not_not.mpr horder), hordered]
    by_cases hlimit : 0 < clauses.limit
    · have hout : outputOf view clauses found = bufferedPage view clauses found :=
        if_pos (by simp [needsBuffering, hlimit])
      rw [if_pos hlimit, hout]
      constructor
      · rintro ⟨ordered, hsome, _, _, paged, hpaged, hnames, hpage⟩
        cases hsome
        have hcolumns := no_columns_of_header hplain hpaged hnames
        obtain ⟨hprojection, hgrouping⟩ := hview hcolumns
        rw [bufferedPage_of_no_columns hcolumns hprojection hgrouping (.inl horder)] at hpaged
        cases hpaged
        rw [rows_streamedPage_of_no_columns hprojection hgrouping hplain] at hpage
        exact ⟨hcolumns, (limited_rows_iff hlimit).mp hpage⟩
      · rintro ⟨hcolumns, hblank⟩
        obtain ⟨hprojection, hgrouping⟩ := hview hcolumns
        refine ⟨plain, rfl, rfl, List.Perm.refl _, _,
          bufferedPage_of_no_columns hcolumns hprojection hgrouping (.inl horder), ?_, ?_⟩
        · rw [hheader, hcolumns]
          rfl
        · rw [rows_streamedPage_of_no_columns hprojection hgrouping hplain]
          exact (limited_rows_iff hlimit).mpr hblank
    · have hout : outputOf view clauses found = some plain := by
        rw [outputOf, if_neg (by simp [needsBuffering, horder, hlimit]), hplain]
      rw [if_neg hlimit, hout]
      constructor
      · rintro ⟨ordered, hsome, _, _, paged, hpaged, _, hpage⟩
        cases hsome
        cases hpaged
        by_cases hneg : clauses.limit < 0
        · exact .inl hneg
        · have hzero : clauses.limit = 0 := by omega
          rw [pageOf, if_pos hzero.ge, hzero, Int.toNat_zero, List.take_zero] at hpage
          exact .inr (hrows.mp hpage)
      · intro hfits
        refine ⟨plain, rfl, rfl, List.Perm.refl _, plain, rfl, rfl, ?_⟩
        rcases hfits with hneg | hfound
        · rw [pageOf, if_neg (by omega)]
        · rw [hrows.mpr hfound]
          unfold pageOf
          split <;> simp
  · have hout : ∀ clauses' : SelectClauses, clauses'.orderColumns = clauses.orderColumns →
        outputOf view clauses' found = bufferedPage view clauses' found :=
      fun clauses' hsame => if_pos (by simp [needsBuffering, hsame, horder])
    rw [PageFits, if_pos horder, hout { clauses with limit := -1, offset := 0 } rfl,
      hout clauses rfl]
    constructor
    · rintro ⟨ordered, hordered, hnames, hperm, _⟩
      have hcolumns := no_columns_of_header hplain hordered hnames
      obtain ⟨hprojection, hgrouping⟩ := hview hcolumns
      exact ⟨hcolumns,
        found_eq_nil_of_ordered hprojection hcolumns hgrouping hplain ⟨rfl, rfl⟩ hordered hperm⟩
    · rintro ⟨hcolumns, hfound⟩
      obtain ⟨hprojection, hgrouping⟩ := hview hcolumns
      have hnames : plain.header = [] := by rw [hheader, hcolumns, List.map_nil]
      refine ⟨_, bufferedPage_empty hcolumns hprojection hgrouping hfound, hnames.symm, ?_, _,
        bufferedPage_empty hcolumns hprojection hgrouping hfound, hnames.symm, ?_⟩
      · rw [hrows.mpr hfound]
      · unfold pageOf
        split <;> simp

end View

/-- A query with ORDER BY or LIMIT prints the plain query's table in order and in pages if and only
if it has neither, or has no columns and no rows to print. -/
theorem rearranges_iff (store : KVStore n) (session : SessionContext) (stmt : SelectStmt)
    (hplain : (selectOutput store session (unordered stmt)).isSome = true) :
    Rearranges store session stmt ↔ RearrangeFits store session stmt := by
  cases hselect : executeSelect store session stmt with
  | none =>
      have hnone : executeSelect store session (unordered stmt) = none := hselect
      rw [selectOutput, hnone] at hplain
      cases hplain
  | some found =>
      cases found with
      | none =>
          have hmissing : selectOutput store session (unordered stmt) = some none := by
            have hnone : executeSelect store session (unordered stmt) = some none := hselect
            rw [selectOutput, hnone]
            rfl
          refine iff_of_true (fun plain hout => ?_) fun run _ hrun _ => ?_
          · rw [hmissing] at hout
            cases hout
          · rw [hselect] at hrun
            cases hrun
      | some run =>
          obtain ⟨schemaVal, hschema, hout⟩ := selectOutput_eq hselect
          have hself := hout stmt.clauses.orderColumns stmt.clauses.limit stmt.clauses.offset
          have hordered := hout stmt.clauses.orderColumns (-1) 0
          have hbare := hout [] (-1) 0
          have hstreamed : ∀ view : SelectView, outputOf view
              { stmt.clauses with orderColumns := [], limit := -1, offset := 0 } run.rows =
                streamedPage view run.rows := fun view => if_neg (by simp [needsBuffering])
          rw [hstreamed] at hbare
          obtain ⟨plain, hsome⟩ : ∃ plain,
              streamedPage (selectView schemaVal run.scan.columns stmt.clauses) run.rows =
                some plain := by
            rw [unordered, hbare, Option.isSome_map] at hplain
            exact Option.isSome_iff_exists.mp hplain
          have hfits : _ ↔ PageFits _ stmt.clauses run.rows :=
            page_rearranges_iff selectView_of_no_columns hsome
          have hprinted : ∀ {output : Option ResultPage} {page : ResultPage},
              output.map some = some (some page) ↔ output = some page := by
            intro output page
            cases output <;> simp
          have hwhole : Rearranges store session stmt ↔
              PageFits (selectView schemaVal run.scan.columns stmt.clauses).resultColumns
                stmt.clauses run.rows := by
            rw [← hfits, Rearranges, unordered, hbare, unpaged, hordered]
            change (∀ page, _ → ∃ ordered, _ ∧ _ ∧ _ ∧
              ∃ paged, selectOutput store session stmt = _ ∧ _) ↔ _
            have hself : selectOutput store session stmt = _ := hself
            simp only [hself, hprinted, hsome, Option.some.injEq, forall_eq']
          rw [hwhole]
          constructor
          · intro h run' schemaVal' hrun' hschema'
            cases hselect.symm.trans hrun'
            cases hschema.symm.trans hschema'
            exact h
          · intro h
            exact h run schemaVal hselect hschema

/-- `SELECT * FROM t`, with an order and a limit. -/
def selectAll (orderColumns : List (CStr × Bool)) (limit : Int) : SelectStmt where
  clauses :=
    { tableName := CStr.lit "t"
      columns := [{ value := CStr.lit "*", funcType := .none }]
      groupBy := none
      orderColumns := orderColumns
      limit := limit
      offset := 0 }
  whereClause := none

theorem rearranges_iff_limited :
    Rearranges nameKeyedDb.store publicSession (selectAll [] 1) ↔
      RearrangeFits nameKeyedDb.store publicSession (selectAll [] 1) :=
  rearranges_iff nameKeyedDb.store publicSession (selectAll [] 1) (by decide +kernel)

/-- `LIMIT 1` prints two columns without a name in front of the others and two cells too many, and
`ORDER BY name` compares with one of these names. -/
theorem buffered_columns_doubled :
    selectOutput nameKeyedDb.store publicSession (selectAll [] 1) =
        some (some
          { message := none
            header := [none, none, some (CStr.lit "name"), some (CStr.lit "id")]
            rows := [[CStr.lit "5", CStr.lit "7", CStr.lit "NULL", CStr.lit "NULL"]] }) ∧
      selectOutput nameKeyedDb.store publicSession
        (selectAll [(CStr.lit "name", false)] (-1)) = none ∧
      ¬ Rearranges nameKeyedDb.store publicSession (selectAll [] 1) ∧
      ¬ Rearranges nameKeyedDb.store publicSession (selectAll [(CStr.lit "name", false)] (-1)) := by
  have hplain : selectOutput nameKeyedDb.store publicSession (selectAll [] (-1)) =
      some (some
        { message := none
          header := [some (CStr.lit "name"), some (CStr.lit "id")]
          rows := [[CStr.lit "5", CStr.lit "7"], [CStr.lit "a", CStr.lit "5"]] }) := by
    decide +kernel
  have hlimited : selectOutput nameKeyedDb.store publicSession (selectAll [] 1) =
      some (some
        { message := none
          header := [none, none, some (CStr.lit "name"), some (CStr.lit "id")]
          rows := [[CStr.lit "5", CStr.lit "7", CStr.lit "NULL", CStr.lit "NULL"]] }) := by
    decide +kernel
  have hordered : selectOutput nameKeyedDb.store publicSession
      (selectAll [(CStr.lit "name", false)] (-1)) = none := by
    decide +kernel
  refine ⟨hlimited, hordered, fun h => ?_, fun h => ?_⟩
  · obtain ⟨_, _, _, _, paged, hpaged, hheader, _⟩ := h _ hplain
    cases hlimited.symm.trans hpaged
    revert hheader
    decide
  · obtain ⟨ordered, hsome, _⟩ := h _ hplain
    cases hordered.symm.trans hsome

end Executor
end InventixDB
