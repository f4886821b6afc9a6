import InventixDB.Executor.ResultSet
import InventixDB.Lib.CellList
import Mathlib.Data.UInt

/-!
# LinkedRows — the rows of a result set as a linked list

A result set keeps its rows in a list with a pointer to the last one, and counts them.
`result_set_limit` cuts that list in place and `result_set_slice` copies a page of it.
-/

namespace InventixDB
namespace Executor
namespace LinkedRows

open Lib.CellList Storage

/-! ## Result sets -/

/-- The values of a row, each of which may be `NULL`; `column_count` is their number. -/
abbrev Values := List (Option CStr)

structure ResultSet where
  columnNames : List (Option CStr)
  columnTypes : List (Option CStr)
  memory : Memory Values
  rows : Option Nat
  rowsTail : Option Nat
  rowCount : Int
  memoryUsed : UInt64
  deriving DecidableEq

def resultSetCreate (columnCount : Nat) : ResultSet :=
  let count := if 0 < columnCount ∧ columnCount ≤ resultMaxColumns then columnCount else 0
  { columnNames := List.replicate count none
    columnTypes := List.replicate count none
    memory := []
    rows := none
    rowsTail := none
    rowCount := 0
    memoryUsed := 72 }

/-- `result_set_set_columns`, with types -/
def resultSetSetColumns (rs : ResultSet) (names types : List (Option CStr)) : ResultSet :=
  if resultMaxColumns < names.length then rs
  else { rs with columnNames := names, columnTypes := types }

/-- Both ways of adding a row append it.  `none` is a bad pointer. -/
def appendRow (rs : ResultSet) (values : Values) : Option ResultSet :=
  let row := rs.memory.length
  let memory := alloc rs.memory { value := values, next := none }
  if rs.rows = none then
    some { rs with
      memory := memory, rows := some row, rowsTail := some row, rowCount := rs.rowCount + 1 }
  else do
    let tail ← rs.rowsTail
    let memory ← setNext memory tail (some row)
    some { rs with memory := memory, rowsTail := some row, rowCount := rs.rowCount + 1 }

/-- A row without values is not taken. -/
def resultSetAddRow (rs : ResultSet) (values : Values) : Option ResultSet :=
  if values = [] then some rs
  else
    (appendRow rs values).map fun rs =>
      { rs with memoryUsed := rs.memoryUsed + 24 + 8 * UInt64.ofNat values.length }

/-- A row of `NULL`s, one for each column. -/
def resultSetNewRow (rs : ResultSet) : Option ResultSet :=
  appendRow rs (List.replicate rs.columnNames.length none)

/-! ## Pages -/

/-- The loop over the rows in front of the page: memory, count and the row it ends at. -/
def skipRows : Nat → Memory Values → Int → Option Nat → Option (Memory Values × Int × Option Nat)
  | 0, memory, rowCount, row => some (memory, rowCount, row)
  | _ + 1, memory, rowCount, none => some (memory, rowCount, none)
  | n + 1, memory, rowCount, some row => do
      let cell ← load memory row
      skipRows n (free memory row) (rowCount - 1) cell.next

/-- The loop over the rows of the page: `prev` and the row it ends at. -/
def keepRows (memory : Memory Values) : Nat → Option Nat → Option Nat →
    Option (Option Nat × Option Nat)
  | 0, prev, row => some (prev, row)
  | _ + 1, prev, none => some (prev, none)
  | n + 1, _, some row => do
      let cell ← load memory row
      keepRows memory n (some row) cell.next

/-- The loop over the rows behind the page; more of them than cells go round in a circle. -/
def freeRows (memory : Memory Values) (rowCount : Int) (row : Option Nat) :
    Option (Memory Values × Int) := do
  let (memory, rowCount, row) ← skipRows memory.length memory rowCount row
  if row = none then some (memory, rowCount) else none

def resultSetLimit (rs : ResultSet) (limit offset : Int) : Option ResultSet :=
  if limit ≤ 0 ∧ offset ≤ 0 then some rs
  else do
    let (memory, rowCount, row) ← skipRows offset.toNat rs.memory rs.rowCount rs.rows
    let skipped := { rs with memory := memory, rowCount := rowCount, rows := row }
    if 0 < limit then
      let (prev, rest) ← keepRows memory limit.toNat none row
      let (memory, rowCount) ← freeRows memory rowCount rest
      match prev with
      | none => some { skipped with memory := memory, rowCount := rowCount }
      | some last =>
          let memory ← setNext memory last none
          some { skipped with memory := memory, rowCount := rowCount, rowsTail := some last }
    else some skipped

/-- The loop of `result_set_slice`, with `index` and `added`. -/
def sliceRows (memory : Memory Values) (limit offset : Int) :
    Nat → Int → Int → ResultSet → Option Nat → Option ResultSet
  | _, _, _, slice, none => some slice
  | 0, _, _, _, some _ => none
  | fuel + 1, index, added, slice, some row => do
      let cell ← load memory row
      if offset ≤ index then
        if limit ≤ 0 ∨ added < limit then
          let slice ← resultSetAddRow slice cell.value
          sliceRows memory limit offset fuel (index + 1) (added + 1) slice cell.next
        else some slice
      else sliceRows memory limit offset fuel (index + 1) added slice cell.next

def resultSetSlice (rs : ResultSet) (limit offset : Int) : Option ResultSet :=
  let created := resultSetCreate rs.columnNames.length
  let slice := resultSetSetColumns created rs.columnNames rs.columnTypes
  sliceRows rs.memory limit offset rs.memory.length 0 0 slice rs.rows

/-- The rows on the list. -/
def rowList (rs : ResultSet) : Option (List Values) :=
  read rs.memory.length rs.memory rs.rows

/-! ## Lists of rows -/

/-- The rows are these cells; the tail is the last of them, and they are counted. -/
structure Represents (rs : ResultSet) (cells : List (Nat × Values)) : Prop where
  rows : Segment rs.memory rs.rows cells none
  tail : ∀ cell ∈ cells.getLast?, rs.rowsTail = some cell.1
  count : rs.rowCount = cells.length

/-- The rows that remain of a page. -/
def page {α : Type} (limit offset : Int) (rows : List α) : List α :=
  if 0 < limit then (rows.drop offset.toNat).take limit.toNat else rows.drop offset.toNat

/-- The set is well formed, and has these rows. -/
def HasRows (rs : ResultSet) (rows : List Values) : Prop :=
  ∃ cells, Represents rs cells ∧ cells.map Prod.snd = rows

variable {rs : ResultSet} {cells : List (Nat × Values)} {values : Values} {limit offset : Int}

theorem represents_create (columnCount : Nat) : Represents (resultSetCreate columnCount) [] :=
  ⟨rfl, (fun _ h => nomatch h), rfl⟩

theorem Represents.rowList (hrs : Represents rs cells) : rowList rs = some (cells.map Prod.snd) :=
  hrs.rows.read hrs.rows.length_le

theorem Represents.appendRow (hrs : Represents rs cells) (values : Values) :
    ∃ longer, appendRow rs values = some longer ∧
      Represents longer (cells ++ [(rs.memory.length, values)]) := by
  have hkept : Segment (alloc rs.memory ⟨values, none⟩) rs.rows cells none := by
    refine hrs.rows.congr fun cell hcell => ?_
    obtain ⟨next, hload⟩ := hrs.rows.mem_load cell hcell
    exact load_alloc_of_lt (lt_length_of_load hload)
  rcases List.eq_nil_or_concat cells with rfl | ⟨before, last, rfl⟩
  · have hempty : rs.rows = none := hrs.rows
    refine ⟨_, by rw [LinkedRows.appendRow, if_pos hempty], ?_, ?_, ?_⟩
    · exact ⟨rfl, none, load_alloc_length, rfl⟩
    · rintro cell ⟨⟩
      rfl
    · simp [hrs.count]
  · rw [List.concat_eq_append] at hrs hkept ⊢
    have htail : rs.rowsTail = some last.1 := hrs.tail last (by simp)
    have hfull : rs.rows ≠ none := by
      rw [hrs.rows.head]
      cases before <;> simp
    obtain ⟨memory, hset, hlen, hsegment, hothers⟩ :=
      hkept.relink hrs.rows.nodup (some rs.memory.length)
    refine ⟨{ rs with
      memory := memory, rowsTail := some rs.memory.length, rowCount := rs.rowCount + 1 },
      ?_, ?_, ?_, ?_⟩
    · rw [LinkedRows.appendRow, if_neg hfull, htail]
      simp only [Option.bind_eq_bind, Option.bind_some, hset]
    · refine segment_append.mpr ⟨_, hsegment, rfl, none, ?_, rfl⟩
      have hlast : last.1 < rs.memory.length := by
        obtain ⟨next, hload⟩ := hrs.rows.mem_load last (by simp)
        exact lt_length_of_load hload
      rw [hothers _ (Nat.ne_of_lt hlast), load_alloc_length]
    · simp
    · simp only [hrs.count, List.length_append, List.length_singleton, Nat.cast_add, Nat.cast_one]

theorem Represents.addRow (hrs : Represents rs cells) (hvalues : values ≠ []) :
    ∃ longer, resultSetAddRow rs values = some longer ∧
      Represents longer (cells ++ [(rs.memory.length, values)]) := by
  obtain ⟨longer, hlonger, hrows⟩ := hrs.appendRow values
  refine ⟨{ longer with memoryUsed := longer.memoryUsed + 24 + 8 * UInt64.ofNat values.length }, ?_,
    hrows.rows, hrows.tail, hrows.count⟩
  rw [resultSetAddRow, if_neg hvalues, hlonger]
  rfl

/-! ## Cutting -/

variable {m : Memory Values} {p : Option Nat}

/-- Skipping ends behind the first rows and leaves the cells of the others alone. -/
theorem skipRows_segment (hs : Segment m p cells none) (n : Nat) (rowCount : Int) :
    ∃ m', skipRows n m rowCount p =
        some (m', rowCount - (cells.take n).length, (cells.drop n).head?.map Prod.fst) ∧
      m'.length = m.length ∧ ∀ y ∉ (cells.take n).map Prod.fst, load m' y = load m y := by
  induction n generalizing m p cells rowCount with
  | zero =>
      refine ⟨m, ?_, rfl, fun _ _ => rfl⟩
      rw [skipRows, hs.head]
      simp
  | succ n ih =>
      cases cells with
      | nil =>
          refine ⟨m, ?_, rfl, fun _ _ => rfl⟩
          rw [(hs : p = none), skipRows]
          simp
      | cons cell cells =>
          have hfresh := (List.nodup_cons.mp hs.nodup).1
          obtain ⟨hp, next, hload, hrest⟩ := hs
          have hfreed : Segment (free m cell.1) next cells none :=
            hrest.congr fun c hc =>
              load_free_of_ne fun heq => hfresh (heq ▸ List.mem_map_of_mem hc)
          obtain ⟨m', hskip, hlen, hframe⟩ := ih hfreed (rowCount - 1)
          refine ⟨m', ?_, by rw [hlen, free, List.length_set], fun y hy => ?_⟩
          · rw [hp, skipRows, hload]
            simp only [Option.bind_eq_bind, Option.bind_some, hskip, List.take_succ_cons,
              List.drop_succ_cons, List.length_cons, Option.some.injEq, Prod.mk.injEq, and_true,
              true_and]
            omega
          · rw [List.take_succ_cons, List.map_cons, List.mem_cons, not_or] at hy
            rw [hframe y hy.2, load_free_of_ne (Ne.symm hy.1)]

theorem keepRows_segment (hs : Segment m p cells none) (n : Nat) (prev : Option Nat) :
    keepRows m n prev p = some (((cells.take n).getLast?.map Prod.fst).or prev,
      (cells.drop n).head?.map Prod.fst) := by
  induction n generalizing p cells prev with
  | zero =>
      rw [keepRows, hs.head]
      simp
  | succ n ih =>
      cases cells with
      | nil =>
          rw [(hs : p = none), keepRows]
          simp
      | cons cell cells =>
          obtain ⟨hp, next, hload, hrest⟩ := hs
          rw [hp, keepRows, hload]
          simp only [Option.bind_eq_bind, Option.bind_some]
          rw [ih hrest, List.take_succ_cons, List.drop_succ_cons, List.getLast?_cons]
          cases (cells.take n).getLast? <;> rfl

theorem freeRows_segment (hs : Segment m p cells none) (rowCount : Int) :
    ∃ m', freeRows m rowCount p = some (m', rowCount - cells.length) ∧
      ∀ y ∉ cells.map Prod.fst, load m' y = load m y := by
  obtain ⟨m', hskip, _, hframe⟩ := skipRows_segment hs m.length rowCount
  rw [List.take_of_length_le hs.length_le] at hskip hframe
  rw [List.drop_of_length_le hs.length_le] at hskip
  exact ⟨m', by rw [freeRows, hskip]; rfl, hframe⟩

theorem drop_of_nonpos {α : Type} {offset : Int} (hoffset : offset ≤ 0) (rows : List α) :
    rows.drop offset.toNat = rows := by
  rw [Int.toNat_of_nonpos hoffset, List.drop_zero]

/-- The page is kept, the rows behind it are freed, and its last row, if any, becomes the end. -/
theorem cut_segment {rows : List (Nat × Values)} (hs : Segment m p rows none) {n : Nat}
    (hn : 0 < n) :
    ∃ prev rest freed, keepRows m n none p = some (prev, rest) ∧
      freeRows m rows.length rest = some (freed, ((rows.take n).length : Int)) ∧
      ((prev = none ∧ p = none ∧ rows.take n = []) ∨
        ∃ last ∈ (rows.take n).getLast?, prev = some last.1 ∧
          ∃ linked, setNext freed last.1 none = some linked ∧
            Segment linked p (rows.take n) none) := by
  have hsplit := List.take_append_drop n rows
  have hdistinct := hs.nodup
  have hparts := hs
  rw [← hsplit] at hdistinct hparts
  rw [List.map_append, List.nodup_append] at hdistinct
  obtain ⟨rest, hfirst, hbehind⟩ := segment_append.mp hparts
  have hkeep := keepRows_segment hs n none
  rw [← hbehind.head] at hkeep
  obtain ⟨freed, hfree, hsame⟩ := freeRows_segment hbehind rows.length
  have hleft : (rows.length : Int) - (rows.drop n).length = (rows.take n).length := by
    have hlen := congrArg List.length hsplit
    rw [List.length_append] at hlen
    omega
  rw [hleft] at hfree
  refine ⟨_, rest, freed, hkeep, hfree, ?_⟩
  have hcut : Segment freed p (rows.take n) rest :=
    hfirst.congr fun cell hcell => hsame _ fun hfreed =>
      hdistinct.2.2 _ (List.mem_map_of_mem hcell) _ hfreed rfl
  rcases List.eq_nil_or_concat (rows.take n) with hnothing | ⟨before, last, hlast⟩
  · have hempty : rows = [] := by
      have hlen := congrArg List.length hnothing
      rw [List.length_take, List.length_nil] at hlen
      exact List.length_eq_zero_iff.mp (by omega)
    refine .inl ⟨by rw [hnothing]; rfl, ?_, hnothing⟩
    rw [hs.head, hempty]
    rfl
  · rw [List.concat_eq_append] at hlast
    rw [hlast] at hcut hdistinct ⊢
    obtain ⟨linked, hset, _, hsegment, _⟩ := hcut.relink hdistinct.1 none
    refine .inr ⟨last, by simp, by simp, linked, hset, hsegment⟩

/-- The page remains, as a list with its tail and its count. -/
theorem Represents.resultSetLimit (hrs : Represents rs cells) (limit offset : Int) :
    ∃ after, resultSetLimit rs limit offset = some after ∧
      Represents after (page limit offset cells) := by
  by_cases hnone : limit ≤ 0 ∧ offset ≤ 0
  · refine ⟨rs, by rw [LinkedRows.resultSetLimit, if_pos hnone], ?_⟩
    rw [page, if_neg (by omega), drop_of_nonpos hnone.2]
    exact hrs
  · obtain ⟨memory, hskip, _, hframe⟩ := skipRows_segment hrs.rows offset.toNat rs.rowCount
    have hparts := List.take_append_drop offset.toNat cells
    have hnodup := hrs.rows.nodup
    have hwhole := hrs.rows
    rw [← hparts] at hnodup hwhole
    rw [List.map_append, List.nodup_append] at hnodup
    obtain ⟨start, _, hrest⟩ := segment_append.mp hwhole
    have hkept : Segment memory start (cells.drop offset.toNat) none :=
      hrest.congr fun cell hcell => hframe _ fun hskipped =>
        hnodup.2.2 _ hskipped _ (List.mem_map_of_mem hcell) rfl
    rw [← hkept.head] at hskip
    have hcount : rs.rowCount - (cells.take offset.toNat).length =
        (cells.drop offset.toNat).length := by
      have hlen := congrArg List.length hparts
      rw [List.length_append] at hlen
      rw [hrs.count]
      omega
    have htail : ∀ cell ∈ (cells.drop offset.toNat).getLast?, rs.rowsTail = some cell.1 := by
      intro cell hcell
      refine hrs.tail cell ?_
      rw [← hparts, List.getLast?_append, hcell]
      rfl
    rw [hcount] at hskip
    rw [LinkedRows.resultSetLimit, if_neg hnone, hskip, page]
    generalize cells.drop offset.toNat = rows at hkept htail
    simp only [Option.bind_eq_bind, Option.bind_some]
    by_cases hlimit : 0 < limit
    · obtain ⟨prev, rest, freed, hkeep, hfree, hends⟩ :=
        cut_segment hkept (Int.lt_toNat.mpr hlimit : 0 < limit.toNat)
      rw [if_pos hlimit, if_pos hlimit, hkeep]
      simp only [Option.bind_some]
      rw [hfree]
      simp only [Option.bind_some]
      rcases hends with ⟨rfl, rfl, hnothing⟩ | ⟨last, hlast, rfl, linked, hset, hsegment⟩
      · -- no row is left: the tail is not moved, and not followed any more
        rw [hnothing]
        exact ⟨_, rfl, rfl, (fun _ h => nomatch h), rfl⟩
      · simp only [hset, Option.bind_some]
        refine ⟨_, rfl, hsegment, ?_, rfl⟩
        intro cell hcell
        rw [Option.mem_unique hcell hlast]
    · rw [if_neg hlimit, if_neg hlimit]
      exact ⟨_, rfl, hkept, htail, rfl⟩

/-! ## Copying -/

/-- The rows of a page that `result_set_add_row` takes. -/
def takenRows (rows : List Values) : List Values :=
  rows.filter (· ≠ [])

theorem sliceRows_segment (limit offset index added : Int) {fuel : Nat} {slice : ResultSet}
    {done : List (Nat × Values)} (hs : Segment m p cells none) (hfuel : cells.length ≤ fuel)
    (hslice : Represents slice done) :
    ∃ result copies, sliceRows m limit offset fuel index added slice p = some result ∧
      Represents result (done ++ copies) ∧
      copies.map Prod.snd = takenRows
        ((if 0 < limit then (cells.drop (offset - index).toNat).take (limit - added).toNat
          else cells.drop (offset - index).toNat).map Prod.snd) := by
  induction cells generalizing p fuel index added slice done with
  | nil =>
      refine ⟨slice, [], ?_, by rw [List.append_nil]; exact hslice, ?_⟩
      · rw [(hs : p = none), sliceRows]
      · split <;> simp [takenRows]
  | cons cell cells ih =>
      obtain ⟨hp, next, hload, hrest⟩ := hs
      obtain ⟨fuel, rfl⟩ := Nat.exists_eq_add_of_lt (Nat.lt_of_lt_of_le (Nat.succ_pos _) hfuel)
      have hfuel : cells.length ≤ fuel := by
        rw [List.length_cons] at hfuel
        omega
      rw [Nat.zero_add, hp, sliceRows, hload]
      simp only [Option.bind_eq_bind, Option.bind_some]
      by_cases hoffset : offset ≤ index
      · rw [if_pos hoffset, Int.toNat_of_nonpos (by omega : offset - index ≤ 0), List.drop_zero]
        by_cases hroom : limit ≤ 0 ∨ added < limit
        · rw [if_pos hroom]
          have hpage : (if 0 < limit then (cell :: cells).take (limit - added).toNat
              else cell :: cells) =
              cell :: if 0 < limit then (cells.drop (offset - (index + 1)).toNat).take
                (limit - (added + 1)).toNat else cells.drop (offset - (index + 1)).toNat := by
            rw [Int.toNat_of_nonpos (by omega : offset - (index + 1) ≤ 0), List.drop_zero]
            split
            · rw [show (limit - added).toNat = (limit - (added + 1)).toNat + 1 by omega,
                List.take_succ_cons]
            · rfl
          rw [hpage, List.map_cons, takenRows]
          by_cases hvalues : cell.2 = []
          · -- the row is counted, although it is not taken
            rw [resultSetAddRow, if_pos hvalues, List.filter_cons_of_neg (by simp [hvalues])]
            exact ih _ _ hrest hfuel hslice
          · obtain ⟨longer, hadd, hlonger⟩ := hslice.addRow hvalues
            rw [hadd, List.filter_cons_of_pos (by simp [hvalues])]
            obtain ⟨result, copies, hresult, hrows, hcopies⟩ :=
              ih (index + 1) (added + 1) hrest hfuel hlonger
            refine ⟨result, [(slice.memory.length, cell.2)] ++ copies, hresult, ?_,
              congrArg (cell.2 :: ·) hcopies⟩
            rw [← List.append_assoc]
            exact hrows
        · rw [if_neg hroom, if_pos (by omega), Int.toNat_of_nonpos (by omega), List.take_zero]
          exact ⟨slice, [], rfl, by rw [List.append_nil]; exact hslice, rfl⟩
      · rw [if_neg hoffset, show (offset - index).toNat = (offset - (index + 1)).toNat + 1 by omega,
          List.drop_succ_cons]
        exact ih _ _ hrest hfuel hslice

theorem Represents.resultSetSlice (hrs : Represents rs cells) (limit offset : Int) :
    ∃ slice copies, resultSetSlice rs limit offset = some slice ∧ Represents slice copies ∧
      copies.map Prod.snd = takenRows ((page limit offset cells).map Prod.snd) := by
  have hempty : Represents (resultSetSetColumns (resultSetCreate rs.columnNames.length)
      rs.columnNames rs.columnTypes) [] := by
    unfold resultSetSetColumns
    split
    · exact represents_create _
    · exact ⟨rfl, (fun _ h => nomatch h), rfl⟩
  obtain ⟨slice, copies, hslice, hrows, hcopies⟩ :=
    sliceRows_segment limit offset 0 0 hrs.rows hrs.rows.length_le hempty
  rw [Int.sub_zero, Int.sub_zero] at hcopies
  exact ⟨slice, copies, hslice, hrows, hcopies⟩

/-! ## Cutting and copying -/

/-- The list cut in place is the copy of the page; it is counted, and another row goes behind it. -/
def LimitIsSlice (rs : ResultSet) (limit offset : Int) : Prop :=
  ∃ after slice rows, resultSetLimit rs limit offset = some after ∧
    resultSetSlice rs limit offset = some slice ∧
    rowList after = some rows ∧ rowList slice = some rows ∧ after.rowCount = rows.length ∧
    ∀ values ≠ [], ∃ longer, resultSetAddRow after values = some longer ∧
      rowList longer = some (rows ++ [values])

theorem map_page {α β : Type} (f : α → β) (rows : List α) :
    page limit offset (rows.map f) = (page limit offset rows).map f := by
  unfold page
  split <;> simp

/-- They agree on every page without a row that has no values. -/
theorem limitIsSlice_iff {rs : ResultSet} {rows : List Values} (hrs : HasRows rs rows)
    (limit offset : Int) :
    LimitIsSlice rs limit offset ↔ ∀ values ∈ page limit offset rows, values ≠ [] := by
  obtain ⟨cells, hcells, rfl⟩ := hrs
  obtain ⟨after, hafter, hpage⟩ := hcells.resultSetLimit limit offset
  obtain ⟨slice, copies, hslice, hcopied, hcopies⟩ := hcells.resultSetSlice limit offset
  rw [map_page]
  constructor
  · rintro ⟨after', slice', rows, hafter', hslice', hleft, hright, _⟩ values hvalues
    cases hafter.symm.trans hafter'
    cases hslice.symm.trans hslice'
    rw [hpage.rowList] at hleft
    rw [hcopied.rowList, ← hleft, Option.some.injEq, hcopies, takenRows,
      List.filter_eq_self] at hright
    exact of_decide_eq_true (hright values hvalues)
  · intro hfull
    have hall : takenRows ((page limit offset cells).map Prod.snd) =
        (page limit offset cells).map Prod.snd :=
      List.filter_eq_self.mpr fun values hvalues => decide_eq_true (hfull values hvalues)
    refine ⟨after, slice, _, hafter, hslice, hpage.rowList, ?_, ?_, fun values hvalues => ?_⟩
    · rw [hcopied.rowList, hcopies, hall]
    · rw [hpage.count, List.length_map]
    · obtain ⟨longer, hlonger, hrows⟩ := hpage.addRow hvalues
      refine ⟨longer, hlonger, ?_⟩
      rw [hrows.rowList, List.map_append]
      rfl

theorem limitIsSlice_second :
    ∃ rs, HasRows rs [[some (CStr.lit "a")], [some (CStr.lit "b")]] ∧ LimitIsSlice rs 1 1 := by
  obtain ⟨first, _, hfirst⟩ :=
    (represents_create 1).addRow (List.cons_ne_nil (some (CStr.lit "a")) [])
  obtain ⟨second, _, hsecond⟩ := hfirst.addRow (List.cons_ne_nil (some (CStr.lit "b")) [])
  have hrows : HasRows second [[some (CStr.lit "a")], [some (CStr.lit "b")]] := ⟨_, hsecond, rfl⟩
  refine ⟨second, hrows, (limitIsSlice_iff hrows 1 1).mpr ?_⟩
  exact List.forall_mem_singleton.mpr (List.cons_ne_nil _ _)

/-- A row for no columns. -/
def emptyRowSet : ResultSet :=
  { resultSetCreate 0 with
    memory := [some { value := [], next := none }]
    rows := some 0
    rowsTail := some 0
    rowCount := 1 }

/-- It stays where it is, and is not copied. -/
theorem limit_keeps_empty_row :
    resultSetNewRow (resultSetCreate 0) = some emptyRowSet ∧ HasRows emptyRowSet [[]] ∧
      ¬ LimitIsSlice emptyRowSet 1 0 := by
  obtain ⟨rs, hnew, hrows⟩ := (represents_create 0).appendRow []
  have hset : appendRow (resultSetCreate 0) [] = some emptyRowSet := by rfl
  obtain rfl := Option.some.inj (hnew.symm.trans hset)
  refine ⟨hset, ⟨_, hrows, rfl⟩, ?_⟩
  rintro ⟨after, slice, rows, hafter, hslice, hleft, hright, _⟩
  have hkept : (resultSetLimit emptyRowSet 1 0).bind rowList = some [[]] := by rfl
  have hcopied : (resultSetSlice emptyRowSet 1 0).bind rowList = some [] := by rfl
  rw [hafter, Option.bind_some, hleft] at hkept
  rw [hslice, Option.bind_some, hright, hkept] at hcopied
  cases hcopied

/-! ## Runs -/

/-- What is done to the rows of a result set. -/
inductive RowEdit
  | add (values : Values)
  | new
  | limit (limit offset : Int)

def RowEdit.apply (rs : ResultSet) : RowEdit → Option ResultSet
  | .add values => resultSetAddRow rs values
  | .new => resultSetNewRow rs
  | .limit limit offset => resultSetLimit rs limit offset

/-- What that means for the rows. -/
def RowEdit.rows (columnCount : Nat) (rows : List Values) : RowEdit → List Values
  | .add values => if values = [] then rows else rows ++ [values]
  | .new => rows ++ [List.replicate columnCount none]
  | .limit limit offset => page limit offset rows

theorem columnNames_appendRow {longer : ResultSet} (happend : appendRow rs values = some longer) :
    longer.columnNames = rs.columnNames := by
  unfold appendRow at happend
  split at happend
  · cases happend
    rfl
  · obtain ⟨tail, _, htail⟩ := Option.bind_eq_some_iff.mp happend
    obtain ⟨memory, _, hmemory⟩ := Option.bind_eq_some_iff.mp htail
    cases hmemory
    rfl

theorem columnNames_resultSetLimit {after : ResultSet}
    (hafter : resultSetLimit rs limit offset = some after) :
    after.columnNames = rs.columnNames := by
  unfold resultSetLimit at hafter
  split at hafter
  · cases hafter
    rfl
  · obtain ⟨⟨memory, rowCount, row⟩, _, hafter⟩ := Option.bind_eq_some_iff.mp hafter
    dsimp only at hafter
    split at hafter
    · obtain ⟨⟨prev, rest⟩, _, hafter⟩ := Option.bind_eq_some_iff.mp hafter
      obtain ⟨⟨freed, left⟩, _, hafter⟩ := Option.bind_eq_some_iff.mp hafter
      cases prev with
      | none =>
          cases hafter
          rfl
      | some last =>
          obtain ⟨linked, _, hafter⟩ := Option.bind_eq_some_iff.mp hafter
          cases hafter
          rfl
    · cases hafter
      rfl

theorem HasRows.edit {rows : List Values} (hrs : HasRows rs rows) (edit : RowEdit) :
    ∃ after, edit.apply rs = some after ∧ after.columnNames = rs.columnNames ∧
      HasRows after (edit.rows rs.columnNames.length rows) := by
  obtain ⟨cells, hcells, rfl⟩ := hrs
  cases edit with
  | add values =>
      by_cases hvalues : values = []
      · refine ⟨rs, by rw [RowEdit.apply, resultSetAddRow, if_pos hvalues], rfl, cells, hcells, ?_⟩
        rw [RowEdit.rows, if_pos hvalues]
      · obtain ⟨longer, hlonger, hrows⟩ := hcells.addRow hvalues
        refine ⟨longer, hlonger, ?_, _, hrows, ?_⟩
        · rw [resultSetAddRow, if_neg hvalues] at hlonger
          obtain ⟨appended, happend, rfl⟩ := Option.map_eq_some_iff.mp hlonger
          exact (columnNames_appendRow happend : appended.columnNames = rs.columnNames)
        · rw [RowEdit.rows, if_neg hvalues, List.map_append]
          rfl
  | new =>
      obtain ⟨longer, hlonger, hrows⟩ :=
        hcells.appendRow (List.replicate rs.columnNames.length none)
      exact ⟨longer, hlonger, columnNames_appendRow hlonger, _, hrows, by rw [List.map_append]; rfl⟩
  | limit limit offset =>
      obtain ⟨after, hafter, hpage⟩ := hcells.resultSetLimit limit offset
      exact ⟨after, hafter, columnNames_resultSetLimit hafter, _, hpage, (map_page _ _).symm⟩

/-- However a result set is filled and cut, it is well formed and has the rows that are meant. -/
theorem rowEdits_hasRows (edits : List RowEdit) {rows : List Values} (hrs : HasRows rs rows) :
    ∃ after, edits.foldlM RowEdit.apply rs = some after ∧
      HasRows after (edits.foldl (RowEdit.rows rs.columnNames.length) rows) := by
  induction edits generalizing rs rows with
  | nil => exact ⟨rs, rfl, hrs⟩
  | cons edit edits ih =>
      obtain ⟨next, hnext, hnames, hrows⟩ := hrs.edit edit
      obtain ⟨after, hafter, hlast⟩ := ih hrows
      rw [hnames] at hlast
      refine ⟨after, ?_, hlast⟩
      rw [List.foldlM_cons, hnext]
      exact hafter

theorem rowEdits_hasRows_cut :
    ∃ after, [RowEdit.new, .add [none], .limit 1 1].foldlM RowEdit.apply (resultSetCreate 1) =
        some after ∧
      HasRows after ([RowEdit.new, .add [none], .limit 1 1].foldl (RowEdit.rows 1) []) :=
  rowEdits_hasRows _ ⟨_, represents_create 1, rfl⟩

end LinkedRows
end Executor
end InventixDB
