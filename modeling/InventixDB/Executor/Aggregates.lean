import InventixDB.Executor.Output
import InventixDB.Lib.GroupedFold
import InventixDB.Storage.ExactDouble
import Mathlib.Algebra.Order.Field.Rat
import Mathlib.Order.Bounds.Basic

/-!
# Aggregates — the groups of a SELECT in exact arithmetic

`update_bucket` and `print_groups` over whole numbers of any size, where no sum is rounded.  A
bucket has one number for all aggregates of its query: the value of the last aggregated column.
-/

namespace InventixDB
namespace Executor

open Storage
open Sql
open Lib.GroupedFold

/-! ## Buckets -/

/-- A `GroupBucket` with exact numbers. -/
structure ExactBucket where
  key : CStr
  count : Nat
  sumVal : Int
  minVal : Int
  maxVal : Int
  deriving DecidableEq

namespace ExactBucket

def init (key : CStr) : ExactBucket where
  key := key
  count := 0
  sumVal := 0
  minVal := 999999999
  maxVal := -999999999

/-- The row counts, and its aggregated value if it has one. -/
def take (b : ExactBucket) : Option Int → ExactBucket
  | none => { b with count := b.count + 1 }
  | some val =>
      { b with
        count := b.count + 1
        sumVal := b.sumVal + val
        minVal := if val < b.minVal then val else b.minVal
        maxVal := if b.maxVal < val then val else b.maxVal }

theorem key_take (b : ExactBucket) (val : Option Int) : (b.take val).key = b.key := by
  cases val with
  | none => rfl
  | some val => rfl

theorem count_take (b : ExactBucket) (val : Option Int) : (b.take val).count = b.count + 1 := by
  cases val with
  | none => rfl
  | some val => rfl

/-- The number of an aggregate. -/
def number (b : ExactBucket) : FuncType → ℚ
  | .count => b.count
  | .sum => b.sumVal
  | .avg => b.sumVal / b.count
  | .max => b.maxVal
  | .min => b.minVal
  | .none => 0

end ExactBucket

/-- The buckets `update_bucket` searches, with a new one in front. -/
def exactBuckets : Accumulator CStr (Option Int) ExactBucket where
  key := ExactBucket.key
  init := ExactBucket.init
  take := ExactBucket.take
  key_init := fun _ => rfl
  key_take := ExactBucket.key_take

/-! ## Rows -/

/-- A projected column whose values go to the bucket. -/
def Aggregated (view : SelectView) (column : ProjectedColumn) : Prop :=
  column.funcType ∈ [FuncType.sum, .avg, .max, .min] ∧ column.index < view.columns.length

instance decidableAggregated (view : SelectView) (column : ProjectedColumn) :
    Decidable (Aggregated view column) :=
  inferInstanceAs (Decidable (_ ∧ _))

/-- The value of a column; a row has one for each column of its table. -/
def valueAt (i : Nat) (row : List Int) : Int :=
  row[i]?.getD 0

/-- The value of the last aggregated column. -/
def exactValue (view : SelectView) (row : List Int) : Option Int :=
  view.projection.foldl
    (fun val column => if Aggregated view column then some (valueAt column.index row) else val) none

/-- The text of the column of the groups, or the key of the one group. -/
def groupKey (groupCol : Option Nat) (row : List Int) : CStr :=
  (groupCol.bind fun i => row[i]?).elim (CStr.lit "ALL") CStr.ofInt

/-- The buckets after a scan. -/
def exactGroups (view : SelectView) (groupCol : Option Nat) (rows : List (List Int)) :
    List ExactBucket :=
  exactBuckets.collect (rows.map fun row => (groupKey groupCol row, exactValue view row))

/-! ## Lines -/

/-- The hundredths in a number, ties to even. -/
def hundredths (x : ℚ) : Nat :=
  let scaled := x.num.natAbs * 100
  let below := scaled / x.den
  let rest := scaled % x.den
  if 2 * rest > x.den ∨ (2 * rest = x.den ∧ below % 2 = 1) then below + 1 else below

/-- `%.2f` -/
def twoDecimals (x : ℚ) : CStr :=
  let shown := hundredths x
  (if x < 0 then CStr.lit "-" else CStr.lit "") ++ CStr.ofInt ↑(shown / 100) ++ CStr.lit "." ++
    CStr.ofInt ↑(shown / 10 % 10) ++ CStr.ofInt ↑(shown % 10)

/-- The text of one column of a group, in a buffer of 64 bytes where it is a number. -/
def exactText (groupCol : Option Nat) (b : ExactBucket) (column : ProjectedColumn) : Option CStr :=
  match column.funcType with
  | .count => some (CStr.ofInt b.count)
  | .avg =>
      if 0 < b.count then CStr.sprintf 64 (twoDecimals (b.number .avg)) else some (CStr.lit "0")
  | .none => some (if some column.index = groupCol then b.key else CStr.lit "...")
  | func => CStr.sprintf 64 (twoDecimals (b.number func))

/-- A line of `print_groups`. -/
def exactLine (view : SelectView) (groupCol : Option Nat) (b : ExactBucket) : Option (List CStr) :=
  view.projection.mapM fun column => (exactText groupCol b column).map printCell

/-- What `print_groups` prints; with ORDER BY or LIMIT it is not called. -/
def exactLines (clauses : SelectClauses) (view : SelectView) (groupCol : Option Nat)
    (rows : List (List Int)) : Option (List (List CStr)) :=
  if needsBuffering clauses then some []
  else (exactGroups view groupCol rows).mapM (exactLine view groupCol)

/-! ## What the lines should show -/

/-- The rows of one group. -/
def groupRows (groupCol : Option Nat) (rows : List (List Int)) (key : CStr) : List (List Int) :=
  rows.filter fun row => groupKey groupCol row = key

/-- An aggregate of some values. -/
def IsAggregate (func : FuncType) (values : List Int) (x : ℚ) : Prop :=
  match func with
  | .count => x = values.length
  | .sum => x = values.sum
  | .avg => x = values.sum / values.length
  | .max => ∃ m : Int, IsGreatest { v | v ∈ values } m ∧ x = m
  | .min => ∃ m : Int, IsLeast { v | v ∈ values } m ∧ x = m
  | .none => False

/-- A cell shows the aggregate of its column over the group, in full; the column of the groups
shows the group. -/
def ShowsExactly (groupCol : Option Nat) (group : List (List Int)) (b : ExactBucket)
    (column : ProjectedColumn) (cell : CStr) : Prop :=
  match column.funcType with
  | .none => some column.index = groupCol → cell = b.key
  | .count => b.count = group.length ∧ cell = CStr.ofInt group.length
  | func =>
      ∃ x, IsAggregate func (group.map (valueAt column.index)) x ∧ b.number func = x ∧
        cell = twoDecimals x

/-- One line for each group, and every line shows the aggregates of its group. -/
structure GroupsExactly (clauses : SelectClauses) (view : SelectView) (groupCol : Option Nat)
    (rows : List (List Int)) : Prop where
  distinct : ((exactGroups view groupCol rows).map ExactBucket.key).Nodup
  complete : ∀ key, key ∈ (exactGroups view groupCol rows).map ExactBucket.key ↔
    key ∈ rows.map (groupKey groupCol)
  shown : ∃ lines, exactLines clauses view groupCol rows = some lines ∧
    List.Forall₂
      (fun b line =>
        List.Forall₂ (ShowsExactly groupCol (groupRows groupCol rows b.key) b) view.projection line)
      (exactGroups view groupCol rows) lines

/-! ## When they do -/

/-- The last aggregated column. -/
def lastAggregated (view : SelectView) : Option Nat :=
  view.projection.foldl
    (fun last column => if Aggregated view column then some column.index else last) none

/-- The values all aggregates of a query are taken of. -/
def sharedValues (view : SelectView) (group : List (List Int)) : List Int :=
  group.map (valueAt ((lastAggregated view).getD 0))

/-- The column of an aggregate has the total, the least or the greatest value of the last
aggregated column, whose least and greatest value count only beyond those of a new bucket; and what
is to be shown has at most 15 characters. -/
def CellFits (view : SelectView) (groupCol : Option Nat) (key : CStr) (group : List (List Int))
    (column : ProjectedColumn) : Prop :=
  let values := group.map (valueAt column.index)
  match column.funcType with
  | .none => some column.index = groupCol → key.length ≤ 15
  | .count => (CStr.ofInt group.length).length ≤ 15
  | .sum =>
      (sharedValues view group).sum = values.sum ∧ (twoDecimals values.sum).length ≤ 15
  | .avg =>
      (sharedValues view group).sum = values.sum ∧
        (twoDecimals (values.sum / values.length)).length ≤ 15
  | .max =>
      ∃ m : Int, IsGreatest { v | v ∈ values } m ∧
        IsGreatest { v | v = -999999999 ∨ v ∈ sharedValues view group } m ∧
        (twoDecimals m).length ≤ 15
  | .min =>
      ∃ m : Int, IsLeast { v | v ∈ values } m ∧
        IsLeast { v | v = 999999999 ∨ v ∈ sharedValues view group } m ∧
        (twoDecimals m).length ≤ 15

/-- Every cell of every group fits, and a result set is not asked for. -/
def GroupsFit (clauses : SelectClauses) (view : SelectView) (groupCol : Option Nat)
    (rows : List (List Int)) : Prop :=
  (needsBuffering clauses → rows = []) ∧
    ∀ key ∈ rows.map (groupKey groupCol), ∀ column ∈ view.projection,
      CellFits view groupCol key (groupRows groupCol rows key) column

/-! ## Buckets hold their groups -/

theorem exactValue_eq (view : SelectView) (row : List Int) :
    exactValue view row = (lastAggregated view).map fun i => valueAt i row := by
  have hfold : ∀ (columns : List ProjectedColumn) (last : Option Nat),
      columns.foldl
          (fun val column =>
            if Aggregated view column then some (valueAt column.index row) else val)
          (last.map fun i => valueAt i row) =
        (columns.foldl
          (fun last column => if Aggregated view column then some column.index else last)
          last).map fun i => valueAt i row := by
    intro columns
    induction columns with
    | nil => exact fun _ => rfl
    | cons column columns ih =>
        intro last
        rw [List.foldl_cons, List.foldl_cons, ← ih]
        split <;> rfl
  exact hfold view.projection none

theorem isSome_lastAggregated {view : SelectView} {column : ProjectedColumn}
    (hmem : column ∈ view.projection) (hagg : Aggregated view column) :
    (lastAggregated view).isSome = true := by
  have hfold : ∀ (columns : List ProjectedColumn) (last : Option Nat),
      last.isSome = true ∨ column ∈ columns →
        (columns.foldl
          (fun last column => if Aggregated view column then some column.index else last)
          last).isSome = true := by
    intro columns
    induction columns with
    | nil => exact fun _ h => h.resolve_right List.not_mem_nil
    | cons c columns ih =>
        intro last h
        rw [List.foldl_cons]
        apply ih
        rcases h with h | h
        · left
          split
          · rfl
          · exact h
        · rcases List.mem_cons.mp h with rfl | h
          · left
            rw [if_pos hagg]
            rfl
          · exact .inr h
  exact hfold view.projection none (.inr hmem)

theorem valuesOf_rows (view : SelectView) (groupCol : Option Nat) (rows : List (List Int))
    (key : CStr) :
    valuesOf (rows.map fun row => (groupKey groupCol row, exactValue view row)) key =
      (groupRows groupCol rows key).map (exactValue view) := by
  rw [valuesOf, groupRows, List.filter_map, List.map_map]
  rfl

theorem count_after (key : CStr) (vals : List (Option Int)) :
    (exactBuckets.after key vals).count = vals.length := by
  induction vals using List.reverseRecOn with
  | nil => rfl
  | append_singleton vals val ih =>
      rw [Accumulator.after_concat, List.length_append, ← ih]
      exact ExactBucket.count_take _ val

theorem sumVal_after (key : CStr) (vals : List Int) :
    (exactBuckets.after key (vals.map some)).sumVal = vals.sum := by
  induction vals using List.reverseRecOn with
  | nil => rfl
  | append_singleton vals val ih =>
      rw [List.map_append, List.map_singleton, Accumulator.after_concat, List.sum_append,
        List.sum_singleton, ← ih]
      rfl

theorem setOf_or_mem_concat (start : Int) (vals : List Int) (val : Int) :
    { v | v = start ∨ v ∈ vals ++ [val] } = insert val { v | v = start ∨ v ∈ vals } := by
  ext v
  simp only [Set.mem_ofPred_eq, Set.mem_insert_iff, List.mem_append, List.mem_singleton]
  tauto

/-- The least value so far is one of the values or that of a new bucket. -/
theorem minVal_after (key : CStr) (vals : List Int) :
    IsLeast { v | v = 999999999 ∨ v ∈ vals } (exactBuckets.after key (vals.map some)).minVal := by
  induction vals using List.reverseRecOn with
  | nil => exact ⟨.inl rfl, fun v hv => (hv.resolve_right List.not_mem_nil).ge⟩
  | append_singleton vals val ih =>
      rw [List.map_append, List.map_singleton, Accumulator.after_concat]
      generalize exactBuckets.after key (vals.map some) = b at ih ⊢
      show IsLeast _ (if val < b.minVal then val else b.minVal)
      rw [setOf_or_mem_concat, ← min_def_lt]
      exact ih.insert val

/-- The same of the greatest value. -/
theorem maxVal_after (key : CStr) (vals : List Int) :
    IsGreatest { v | v = -999999999 ∨ v ∈ vals }
      (exactBuckets.after key (vals.map some)).maxVal := by
  induction vals using List.reverseRecOn with
  | nil => exact ⟨.inl rfl, fun v hv => (hv.resolve_right List.not_mem_nil).le⟩
  | append_singleton vals val ih =>
      rw [List.map_append, List.map_singleton, Accumulator.after_concat]
      generalize exactBuckets.after key (vals.map some) = b at ih ⊢
      show IsGreatest _ (if b.maxVal < val then val else b.maxVal)
      rw [setOf_or_mem_concat, ← max_def_lt, max_comm]
      exact ih.insert val

/-- A bucket has counted the rows of its group and taken the shared value of each. -/
structure Summarises (view : SelectView) (group : List (List Int)) (b : ExactBucket) : Prop where
  count : b.count = group.length
  sumVal : (lastAggregated view).isSome = true → b.sumVal = (sharedValues view group).sum
  minVal : (lastAggregated view).isSome = true →
    IsLeast { v | v = 999999999 ∨ v ∈ sharedValues view group } b.minVal
  maxVal : (lastAggregated view).isSome = true →
    IsGreatest { v | v = -999999999 ∨ v ∈ sharedValues view group } b.maxVal

theorem summarises_after (view : SelectView) (key : CStr) (group : List (List Int)) :
    Summarises view group (exactBuckets.after key (group.map (exactValue view))) := by
  have hshared : (lastAggregated view).isSome = true →
      group.map (exactValue view) = (sharedValues view group).map some := by
    intro hsome
    obtain ⟨i, hi⟩ := Option.isSome_iff_exists.mp hsome
    rw [sharedValues, List.map_map]
    refine List.map_congr_left fun row _ => ?_
    rw [exactValue_eq, hi]
    rfl
  constructor
  · rw [count_after, List.length_map]
  · intro hsome
    rw [hshared hsome]
    exact sumVal_after key _
  · intro hsome
    rw [hshared hsome]
    exact minVal_after key _
  · intro hsome
    rw [hshared hsome]
    exact maxVal_after key _

/-- The buckets have the keys of the rows, each once, and each summarises its group. -/
theorem exactGroups_summarise (view : SelectView) (groupCol : Option Nat)
    (rows : List (List Int)) :
    ((exactGroups view groupCol rows).map ExactBucket.key).Nodup ∧
      (∀ key, key ∈ (exactGroups view groupCol rows).map ExactBucket.key ↔
        key ∈ rows.map (groupKey groupCol)) ∧
      ∀ b ∈ exactGroups view groupCol rows,
        Summarises view (groupRows groupCol rows b.key) b := by
  have hall := @collected_collect _ _ _ _ exactBuckets
    (rows.map fun row => (groupKey groupCol row, exactValue view row))
  refine ⟨hall.nodup, fun key => ?_, fun b hb => ?_⟩
  · have hkeys := hall.keys key
    rwa [List.map_map] at hkeys
  · have hheld : b = exactBuckets.after b.key
        ((groupRows groupCol rows b.key).map (exactValue view)) :=
      (hall.holds b hb).trans (congrArg _ (valuesOf_rows view groupCol rows b.key))
    have hsum := summarises_after view b.key (groupRows groupCol rows b.key)
    rwa [← hheld] at hsum

/-! ## Cells show what they should -/

/-- A cell shows a text on one line in full if it has at most 15 characters. -/
theorem printCell_eq_self_iff {text : CStr} (hline : 10 ∉ text.val) :
    printCell text = text ↔ text.length ≤ 15 := by
  have hsame : (text.val.take 15).map (fun c => if c = 10 then 32 else c) = text.val.take 15 := by
    refine (List.map_congr_left fun c hc => ?_).trans (List.map_id _)
    refine if_neg fun h => ?_
    rw [h] at hc
    exact hline (List.mem_of_mem_take hc)
  unfold printCell
  rw [hsame]
  dsimp only
  by_cases hlong : 15 < text.length
  · rw [if_pos hlong]
    refine iff_of_false (fun heq => ?_) (Nat.not_le.mpr hlong)
    have hle : (CStr.ofBytes ((text.val.take 15).take 12 ++ [46, 46, 46])).length ≤
        ((text.val.take 15).take 12 ++ [46, 46, 46]).length :=
      (List.takeWhile_sublist _).length_le
    rw [heq, List.length_append, List.length_take] at hle
    have hfew : min 12 (List.take 15 text.val).length + [46, 46, 46].length ≤ 15 := by
      simp only [List.length_cons, List.length_nil]
      omega
    omega
  · rw [if_neg hlong, List.take_of_length_le (Nat.not_lt.mp hlong), CStr.ofBytes_val]
    exact iff_of_true rfl (Nat.not_lt.mp hlong)

/-- The same of a text that is written to a buffer first. -/
theorem sprintf_printCell_iff {text : CStr} (hline : 10 ∉ text.val) :
    (CStr.sprintf 64 text).map printCell = some text ↔ text.length ≤ 15 := by
  unfold CStr.sprintf
  by_cases hfits : text.length < 64
  · rw [if_pos hfits, Option.map_some, Option.some_inj, printCell_eq_self_iff hline]
  · rw [if_neg hfits]
    exact iff_of_false (fun h => nomatch h) (by omega)

theorem newline_notMem_ofInt (i : Int) : 10 ∉ (CStr.ofInt i).val := by
  rw [CStr.val_ofInt, List.mem_append, not_or]
  refine ⟨by split <;> decide, fun hmem => ?_⟩
  exact absurd (CStr.isDigit_of_mem_decimal hmem) (by decide)

theorem newline_notMem_twoDecimals (x : ℚ) : 10 ∉ (twoDecimals x).val := by
  have hsign : 10 ∉ (if x < 0 then CStr.lit "-" else CStr.lit "").val := by
    split <;> decide
  have hpoint : 10 ∉ (CStr.lit ".").val := by decide
  simp only [twoDecimals, CStr.val_append, List.mem_append, not_or]
  exact ⟨⟨⟨⟨hsign, newline_notMem_ofInt _⟩, hpoint⟩, newline_notMem_ofInt _⟩,
    newline_notMem_ofInt _⟩

theorem newline_notMem_groupKey (groupCol : Option Nat) (row : List Int) :
    10 ∉ (groupKey groupCol row).val := by
  unfold groupKey
  cases groupCol.bind fun i => row[i]? with
  | none => decide
  | some i => exact newline_notMem_ofInt i

/-- A cell that shows a number in full shows the right one if it is the bucket's. -/
theorem shows_number_iff {values : List Int} {func : FuncType} {number : ℚ} {fits : Prop}
    (hfits : (∃ x, IsAggregate func values x ∧ number = x ∧ (twoDecimals x).length ≤ 15) ↔ fits) :
    (∃ cell, (CStr.sprintf 64 (twoDecimals number)).map printCell = some cell ∧
      ∃ x, IsAggregate func values x ∧ number = x ∧ cell = twoDecimals x) ↔ fits := by
  rw [← hfits]
  constructor
  · rintro ⟨cell, hcell, x, hx, rfl, rfl⟩
    exact ⟨_, hx, rfl, (sprintf_printCell_iff (newline_notMem_twoDecimals _)).mp hcell⟩
  · rintro ⟨x, hx, rfl, hlen⟩
    exact ⟨_, (sprintf_printCell_iff (newline_notMem_twoDecimals _)).mpr hlen, _, hx, rfl, rfl⟩

/-- What `print_groups` prints for one column is right if and only if the cell fits. -/
theorem cell_shows_iff {view : SelectView} {groupCol : Option Nat} {group : List (List Int)}
    {b : ExactBucket} {column : ProjectedColumn} (hmem : column ∈ view.projection)
    (hindex : column.index < view.columns.length) (hgroup : group ≠ [])
    (hline : 10 ∉ b.key.val) (hsum : Summarises view group b) :
    (∃ cell, (exactText groupCol b column).map printCell = some cell ∧
        ShowsExactly groupCol group b column cell) ↔
      CellFits view groupCol b.key group column := by
  have hshared : column.funcType ∈ [FuncType.sum, .avg, .max, .min] →
      (lastAggregated view).isSome = true :=
    fun hfunc => isSome_lastAggregated hmem ⟨hfunc, hindex⟩
  have hcount : 0 < b.count := by
    rw [hsum.count]
    exact List.length_pos_of_ne_nil hgroup
  unfold exactText ShowsExactly CellFits
  cases hfunc : column.funcType with
  | none =>
      by_cases hkey : some column.index = groupCol
      · simp [hkey, printCell_eq_self_iff hline]
      · simp [hkey]
  | count =>
      have hno := newline_notMem_ofInt group.length
      simp only [hsum.count, Option.map_some, Option.some_inj, true_and, exists_eq_left']
      exact printCell_eq_self_iff hno
  | sum =>
      have hlast := hsum.sumVal (hshared (by rw [hfunc]; decide))
      refine shows_number_iff ⟨?_, ?_⟩
      · rintro ⟨x, rfl, heq, hlen⟩
        exact ⟨hlast.symm.trans (Rat.intCast_inj.mp heq), hlen⟩
      · rintro ⟨htotal, hlen⟩
        exact ⟨_, rfl, by rw [ExactBucket.number, hlast, htotal], hlen⟩
  | avg =>
      have hlast := hsum.sumVal (hshared (by rw [hfunc]; decide))
      dsimp only
      rw [if_pos hcount]
      have hpos : (group.length : ℚ) ≠ 0 := by
        rw [← hsum.count]
        exact_mod_cast hcount.ne'
      have hnumber : b.number .avg = b.sumVal / group.length := by
        rw [ExactBucket.number, hsum.count]
      rw [List.length_map]
      refine shows_number_iff ⟨?_, ?_⟩
      · rintro ⟨x, rfl, heq, hlen⟩
        rw [List.length_map] at heq hlen
        rw [hnumber, div_left_inj' hpos] at heq
        exact ⟨hlast.symm.trans (Rat.intCast_inj.mp heq), hlen⟩
      · rintro ⟨htotal, hlen⟩
        refine ⟨_, rfl, ?_, ?_⟩
        · rw [hnumber, List.length_map, hlast, htotal]
        · rwa [List.length_map]
  | max =>
      have hlast := hsum.maxVal (hshared (by rw [hfunc]; decide))
      refine shows_number_iff ⟨?_, ?_⟩
      · rintro ⟨x, ⟨m, hm, rfl⟩, heq, hlen⟩
        have heq : b.maxVal = m := Rat.intCast_inj.mp heq
        exact ⟨m, hm, heq ▸ hlast, hlen⟩
      · rintro ⟨m, hm, hm', hlen⟩
        exact ⟨m, ⟨m, hm, rfl⟩, by rw [ExactBucket.number, hlast.unique hm'], hlen⟩
  | min =>
      have hlast := hsum.minVal (hshared (by rw [hfunc]; decide))
      refine shows_number_iff ⟨?_, ?_⟩
      · rintro ⟨x, ⟨m, hm, rfl⟩, heq, hlen⟩
        have heq : b.minVal = m := Rat.intCast_inj.mp heq
        exact ⟨m, hm, heq ▸ hlast, hlen⟩
      · rintro ⟨m, hm, hm', hlen⟩
        exact ⟨m, ⟨m, hm, rfl⟩, by rw [ExactBucket.number, hlast.unique hm'], hlen⟩

/-- A list is mapped to right results if and only if each element is. -/
theorem mapM_forall₂_iff {α β : Type*} {f : α → Option β} {R : α → β → Prop} {xs : List α} :
    (∃ ys, xs.mapM f = some ys ∧ List.Forall₂ R xs ys) ↔
      ∀ x ∈ xs, ∃ y, f x = some y ∧ R x y := by
  induction xs with
  | nil => exact iff_of_true ⟨[], rfl, .nil⟩ fun _ h => absurd h List.not_mem_nil
  | cons x xs ih =>
      rw [List.forall_mem_cons, ← ih, List.mapM_cons]
      constructor
      · rintro ⟨ys, hys, hall⟩
        obtain ⟨y, hy, hys⟩ := Option.bind_eq_some_iff.mp hys
        obtain ⟨rest, hrest, hys⟩ := Option.bind_eq_some_iff.mp hys
        cases hys
        cases hall with
        | cons hxy hall => exact ⟨⟨y, hy, hxy⟩, rest, hrest, hall⟩
      · rintro ⟨⟨y, hy, hxy⟩, rest, hrest, hall⟩
        exact ⟨y :: rest, by rw [hy, hrest]; rfl, .cons hxy hall⟩

/-- Every line shows its group if and only if every cell fits. -/
theorem lines_show_iff {view : SelectView} (groupCol : Option Nat)
    (hnamed : ∀ column ∈ view.projection, column.index < view.columns.length)
    (rows : List (List Int)) :
    (∃ lines, (exactGroups view groupCol rows).mapM (exactLine view groupCol) = some lines ∧
      List.Forall₂
        (fun b line =>
          List.Forall₂ (ShowsExactly groupCol (groupRows groupCol rows b.key) b)
            view.projection line)
        (exactGroups view groupCol rows) lines) ↔
      ∀ key ∈ rows.map (groupKey groupCol), ∀ column ∈ view.projection,
        CellFits view groupCol key (groupRows groupCol rows key) column := by
  obtain ⟨_, hcomplete, hsum⟩ := exactGroups_summarise view groupCol rows
  have hline : ∀ b ∈ exactGroups view groupCol rows,
      (∃ line, exactLine view groupCol b = some line ∧
        List.Forall₂ (ShowsExactly groupCol (groupRows groupCol rows b.key) b)
          view.projection line) ↔
        ∀ column ∈ view.projection,
          CellFits view groupCol b.key (groupRows groupCol rows b.key) column := by
    intro b hb
    have hkey := (hcomplete b.key).mp (List.mem_map_of_mem hb)
    obtain ⟨row, hrow, hrowKey⟩ := List.mem_map.mp hkey
    have hgroup : groupRows groupCol rows b.key ≠ [] :=
      List.ne_nil_of_mem (List.mem_filter.mpr ⟨hrow, decide_eq_true hrowKey⟩)
    rw [exactLine, mapM_forall₂_iff]
    exact forall₂_congr fun column hcolumn =>
      cell_shows_iff hcolumn (hnamed column hcolumn) hgroup
        (hrowKey ▸ newline_notMem_groupKey groupCol row) (hsum b hb)
  rw [mapM_forall₂_iff, forall₂_congr hline]
  constructor
  · intro h key hkey
    obtain ⟨b, hb, rfl⟩ := List.mem_map.mp ((hcomplete key).mpr hkey)
    exact h b hb
  · intro h b hb
    exact h b.key ((hcomplete b.key).mp (List.mem_map_of_mem hb))

theorem exactGroups_eq_nil_iff (view : SelectView) (groupCol : Option Nat)
    (rows : List (List Int)) : exactGroups view groupCol rows = [] ↔ rows = [] := by
  obtain ⟨_, hcomplete, _⟩ := exactGroups_summarise view groupCol rows
  rw [← List.map_eq_nil_iff (f := ExactBucket.key), List.eq_nil_iff_forall_not_mem,
    ← List.map_eq_nil_iff (f := groupKey groupCol), List.eq_nil_iff_forall_not_mem]
  exact forall_congr' fun key => not_congr (hcomplete key)

/-- The groups show their aggregates if and only if every cell fits. -/
theorem groupsExactly_iff (clauses : SelectClauses) (view : SelectView) (groupCol : Option Nat)
    (hnamed : ∀ column ∈ view.projection, column.index < view.columns.length)
    (rows : List (List Int)) :
    GroupsExactly clauses view groupCol rows ↔ GroupsFit clauses view groupCol rows := by
  obtain ⟨hdistinct, hcomplete, _⟩ := exactGroups_summarise view groupCol rows
  by_cases hbuffer : needsBuffering clauses
  · have hempty := exactGroups_eq_nil_iff view groupCol rows
    constructor
    · intro h
      obtain ⟨lines, hlines, hall⟩ := h.shown
      rw [exactLines, if_pos hbuffer] at hlines
      cases hlines
      have hrows := hempty.mp (List.forall₂_nil_right_iff.mp hall)
      refine ⟨fun _ => hrows, ?_⟩
      rw [hrows]
      exact fun _ h => absurd h List.not_mem_nil
    · intro h
      have hnone := hempty.mpr (h.1 hbuffer)
      refine ⟨hdistinct, hcomplete, [], ?_, ?_⟩
      · rw [exactLines, if_pos hbuffer]
      · rw [hnone]
        exact .nil
  · have hshown := lines_show_iff groupCol hnamed rows
    constructor
    · intro h
      obtain ⟨lines, hlines, hall⟩ := h.shown
      rw [exactLines, if_neg hbuffer] at hlines
      exact ⟨fun hneeds => absurd hneeds hbuffer, hshown.mp ⟨lines, hlines, hall⟩⟩
    · intro h
      obtain ⟨lines, hlines, hall⟩ := hshown.mpr h.2
      exact ⟨hdistinct, hcomplete, lines, by rw [exactLines, if_neg hbuffer, hlines], hall⟩

/-- `SELECT MIN(x) FROM t` -/
def leastClauses : SelectClauses where
  tableName := CStr.lit "t"
  columns := [{ value := CStr.lit "x", funcType := .min }]
  groupBy := none
  orderColumns := []
  limit := 0
  offset := 0

/-- The view of that query on a table with one column. -/
def leastView : SelectView where
  columns := [{ name := CStr.lit "x", type := some (CStr.lit "INT") }]
  projection := [{ index := 0, name := CStr.lit "x", funcType := .min }]
  grouping := some none
  message := none

example : projectionOf leastView.columns leastClauses.columns = leastView.projection := by decide

theorem groupsExactly_iff_least :
    GroupsExactly leastClauses leastView none [[3], [5]] ↔
      GroupsFit leastClauses leastView none [[3], [5]] :=
  groupsExactly_iff leastClauses leastView none (by decide) [[3], [5]]

/-- A new bucket starts with 999999999, which no greater value replaces. -/
theorem least_of_large_value : ¬ GroupsExactly leastClauses leastView none [[1000000000]] := by
  intro h
  obtain ⟨lines, hlines, hall⟩ := h.shown
  rw [exactLines, if_neg (by decide)] at hlines
  have hcells := (lines_show_iff none (by decide) _).mp ⟨lines, hlines, hall⟩
  obtain ⟨m, hm, hleast, _⟩ := hcells (CStr.lit "ALL") List.mem_cons_self
    { index := 0, name := CStr.lit "x", funcType := .min } List.mem_cons_self
  have hvalue : m = 1000000000 := List.mem_singleton.mp hm.1
  have hbound : m ≤ 999999999 := hleast.2 (.inl rfl)
  omega

example : streamedRows leastView [[CStr.lit "1000000000"]] =
    some [[CStr.lit "999999999.00"]] := by decide +kernel

/-! ## Doubles below 2⁵³ -/

/-- The bucket of `update_bucket` with these numbers. -/
def ExactBucket.toBucket (b : ExactBucket) : GroupBucket where
  key := b.key
  count := b.count
  sumVal := .ofInt b.sumVal
  minVal := .ofInt b.minVal
  maxVal := .ofInt b.maxVal

theorem select_ofInt (i j v w : Int) :
    (if (SignedDouble.ofInt i).value.lt (SignedDouble.ofInt j).value = true
      then SignedDouble.ofInt v else SignedDouble.ofInt w) =
      SignedDouble.ofInt (if i < j then v else w) := by
  rw [SignedDouble.lt_ofInt, apply_ite SignedDouble.ofInt]
  simp only [decide_eq_true_eq]

theorem take_toBucket {b : ExactBucket} {val : Option Int}
    (hsmall : ∀ v ∈ val, (b.sumVal + v).natAbs < exactBelow) :
    b.toBucket.take (val.map SignedDouble.ofInt) = (b.take val).toBucket := by
  cases val with
  | none => rfl
  | some v =>
      have htake : b.toBucket.take (some (SignedDouble.ofInt v)) =
          { key := b.key
            count := b.count + 1
            sumVal := (SignedDouble.ofInt b.sumVal).add (SignedDouble.ofInt v)
            minVal :=
              if (SignedDouble.ofInt v).value.lt (SignedDouble.ofInt b.minVal).value = true
              then SignedDouble.ofInt v else SignedDouble.ofInt b.minVal
            maxVal :=
              if (SignedDouble.ofInt b.maxVal).value.lt (SignedDouble.ofInt v).value = true
              then SignedDouble.ofInt v else SignedDouble.ofInt b.maxVal } := rfl
      rw [Option.map_some, htake, SignedDouble.add_ofInt (hsmall v rfl), select_ofInt,
        select_ofInt]
      rfl

/-- The buckets of `update_bucket`. -/
def doubleBuckets : Accumulator CStr (Option SignedDouble) GroupBucket where
  key := GroupBucket.key
  init := GroupBucket.init
  take := GroupBucket.take
  key_init := fun _ => rfl
  key_take := by
    intro b val
    cases val with
    | none => rfl
    | some val => rfl

theorem takeRow_eq_put (groups : List GroupBucket) (key : CStr) (val : Option SignedDouble) :
    takeRow groups key val = doubleBuckets.put groups key val := rfl

/-- One row, if no sum is rounded. -/
theorem takeRow_toBucket {groups : List ExactBucket} {key : CStr} {val : Option Int} {done : Nat}
    (hdone : ∀ b ∈ groups, b.sumVal.natAbs ≤ done)
    (hsmall : done + (val.getD 0).natAbs < exactBelow) :
    takeRow (groups.map ExactBucket.toBucket) key (val.map SignedDouble.ofInt) =
      (exactBuckets.put groups key val).map ExactBucket.toBucket := by
  rw [takeRow_eq_put]
  refine put_map (fun _ => rfl) rfl fun b hb => take_toBucket fun v hv => ?_
  rw [Option.mem_def.mp hv, Option.getD_some] at hsmall
  rcases hb with rfl | hb
  · show (0 + v).natAbs < exactBelow
    omega
  · have hle := hdone b hb
    omega

theorem aggregatedValue_exact {view : SelectView} {row : List Int}
    (hlen : row.length = view.columns.length) :
    aggregatedValue view (row.map CStr.ofInt) =
      some ((exactValue view row).map fun v => CStr.atofSigned (CStr.ofInt v)) := by
  have hfold : ∀ (columns : List ProjectedColumn) (val : Option Int),
      columns.foldlM
          (fun val column =>
            if column.funcType ∈ [FuncType.sum, .avg, .max, .min] ∧
              column.index < view.columns.length
            then ((row.map CStr.ofInt)[column.index]?).map fun cell => some (CStr.atofSigned cell)
            else some val)
          (val.map fun v => CStr.atofSigned (CStr.ofInt v)) =
        some ((columns.foldl
          (fun val column =>
            if Aggregated view column then some (valueAt column.index row) else val)
          val).map fun v => CStr.atofSigned (CStr.ofInt v)) := by
    intro columns
    induction columns with
    | nil => exact fun _ => rfl
    | cons column columns ih =>
        intro val
        rw [List.foldlM_cons, List.foldl_cons, ← ih]
        by_cases hagg : Aggregated view column
        · have hcell : row[column.index]? = some (valueAt column.index row) := by
            rw [valueAt, List.getElem?_eq_getElem (hlen ▸ hagg.2), Option.getD_some]
          rw [if_pos hagg, if_pos ⟨hagg.1, hagg.2⟩, List.getElem?_map, hcell]
          rfl
        · rw [if_neg hagg, if_neg (show ¬ (_ ∧ _) from hagg)]
          rfl
  exact hfold view.projection none

theorem groupKey_exact (groupCol : Option Nat) (row : List Int) :
    (groupCol.bind fun i => (row.map CStr.ofInt)[i]?).getD (CStr.lit "ALL") =
      groupKey groupCol row := by
  unfold groupKey
  cases groupCol with
  | none => rfl
  | some i =>
      rw [Option.bind_some, Option.bind_some, List.getElem?_map]
      cases row[i]? with
      | none => rfl
      | some v => rfl

theorem updateBucket_toBucket {view : SelectView} {groupCol : Option Nat}
    {groups : List ExactBucket} {row : List Int} {done : Nat}
    (hlen : row.length = view.columns.length) (hdone : ∀ b ∈ groups, b.sumVal.natAbs ≤ done)
    (hsmall : done + ((exactValue view row).getD 0).natAbs < exactBelow) :
    updateBucket view groupCol (groups.map ExactBucket.toBucket) (row.map CStr.ofInt) =
      some ((exactBuckets.put groups (groupKey groupCol row) (exactValue view row)).map
        ExactBucket.toBucket) := by
  have hread : (exactValue view row).map (fun v => CStr.atofSigned (CStr.ofInt v)) =
      (exactValue view row).map SignedDouble.ofInt := by
    refine Option.map_congr fun v hv => CStr.atofSigned_ofInt ?_
    rw [Option.mem_def.mp hv, Option.getD_some] at hsmall
    omega
  unfold updateBucket
  rw [aggregatedValue_exact hlen, Option.map_some, groupKey_exact, hread,
    takeRow_toBucket hdone hsmall]

/-- As long as all sums stay below 2⁵³, the buckets of `update_bucket` hold the exact numbers. -/
theorem updateBucket_exact (view : SelectView) (groupCol : Option Nat) (rows : List (List Int))
    (hlen : ∀ row ∈ rows, row.length = view.columns.length)
    (hsmall : (rows.map fun row => ((exactValue view row).getD 0).natAbs).sum < exactBelow) :
    (rows.map fun row => row.map CStr.ofInt).foldlM (updateBucket view groupCol) [] =
      some ((exactGroups view groupCol rows).map ExactBucket.toBucket) := by
  have hrun : ∀ (rows : List (List Int)) (groups : List ExactBucket) (done : Nat),
      (∀ row ∈ rows, row.length = view.columns.length) →
      (∀ b ∈ groups, b.sumVal.natAbs ≤ done) →
      done + (rows.map fun row => ((exactValue view row).getD 0).natAbs).sum < exactBelow →
      (rows.map fun row => row.map CStr.ofInt).foldlM (updateBucket view groupCol)
          (groups.map ExactBucket.toBucket) =
        some (((rows.map fun row => (groupKey groupCol row, exactValue view row)).foldl
          (fun groups row => exactBuckets.put groups row.1 row.2) groups).map
            ExactBucket.toBucket) := by
    intro rows
    induction rows with
    | nil => exact fun _ _ _ _ _ => rfl
    | cons row rows ih =>
        intro groups done hlen hdone hsmall
        rw [List.map_cons, List.sum_cons] at hsmall
        have hstep := @updateBucket_toBucket view groupCol groups row done
          (hlen row List.mem_cons_self) hdone (by omega)
        rw [List.map_cons, List.foldlM_cons, hstep]
        refine ih _ (done + ((exactValue view row).getD 0).natAbs)
          (fun r hr => hlen r (List.mem_cons_of_mem _ hr)) (fun b hb => ?_) (by omega)
        rcases mem_put hb with hb | ⟨a, ha, rfl⟩
        · exact (hdone b hb).trans (Nat.le_add_right _ _)
        · have hle : a.sumVal.natAbs ≤ done := by
            rcases ha with rfl | ha
            · exact Nat.zero_le _
            · exact hdone a ha
          cases hval : exactValue view row with
          | none => exact hle.trans (Nat.le_add_right _ _)
          | some v =>
              show (a.sumVal + v).natAbs ≤ done + v.natAbs
              omega
  exact hrun rows [] 0 hlen (fun _ h => absurd h List.not_mem_nil) (by omega)

theorem hundredths_intCast (i : Int) : hundredths i = i.natAbs * 100 := by
  unfold hundredths
  rw [Rat.num_intCast, Rat.den_intCast]
  dsimp only
  rw [Nat.mod_one, Nat.div_one, if_neg (by omega)]

theorem signedHundredths_ofInt (i : Int) :
    SignedDouble.hundredths (i * 2 ^ Double.unitExponent) = i.natAbs * 100 := by
  unfold SignedDouble.hundredths
  generalize Double.unitExponent = e
  have hscaled : (i * 2 ^ e).natAbs * 100 = i.natAbs * 100 * 2 ^ e := by
    rw [Int.natAbs_mul, Int.natAbs_pow, Nat.mul_right_comm]
    rfl
  have hpos := Nat.two_pow_pos e
  dsimp only
  rw [hscaled, Nat.mul_mod_left, Nat.mul_div_cancel _ hpos, if_neg (by omega)]

/-- The text of a whole number is exact at any size. -/
theorem toText_ofInt (i : Int) : (SignedDouble.ofInt i).toText = twoDecimals i := by
  unfold SignedDouble.toText SignedDouble.ofInt twoDecimals
  dsimp only
  rw [signedHundredths_ofInt, hundredths_intCast]
  by_cases hneg : i < 0
  · rw [decide_eq_true hneg, if_pos rfl, if_pos (Rat.intCast_neg_iff.mpr hneg)]
  · rw [decide_eq_false hneg, if_neg Bool.false_ne_true, if_neg fun h =>
      hneg (Rat.intCast_neg_iff.mp h)]

/-- The quotients apart, the lines of `print_groups` are exact with the buckets. -/
theorem printGroups_toBucket {view : SelectView} (groupCol : Option Nat)
    (hquotients : ∀ column ∈ view.projection, column.funcType ≠ .avg)
    (groups : List ExactBucket) :
    printGroups view groupCol (groups.map ExactBucket.toBucket) =
      groups.mapM (exactLine view groupCol) := by
  have htext : ∀ b : ExactBucket, ∀ column ∈ view.projection,
      groupText groupCol b.toBucket column = exactText groupCol b column := by
    intro b column hcolumn
    unfold groupText exactText
    cases hfunc : column.funcType with
    | avg => exact absurd hfunc (hquotients column hcolumn)
    | count => rfl
    | none => rfl
    | sum => exact congrArg (CStr.sprintf 64) (toText_ofInt b.sumVal)
    | max => exact congrArg (CStr.sprintf 64) (toText_ofInt b.maxVal)
    | min => exact congrArg (CStr.sprintf 64) (toText_ofInt b.minVal)
  have hline : ∀ (b : ExactBucket) (columns : List ProjectedColumn),
      (∀ column ∈ columns, column ∈ view.projection) →
      columns.mapM (fun column => (groupText groupCol b.toBucket column).map printCell) =
        columns.mapM fun column => (exactText groupCol b column).map printCell := by
    intro b columns
    induction columns with
    | nil => exact fun _ => rfl
    | cons column columns ih =>
        intro hall
        rw [List.mapM_cons, List.mapM_cons, htext b column (hall column List.mem_cons_self),
          ih fun c hc => hall c (List.mem_cons_of_mem _ hc)]
  rw [printGroups, List.mapM_map]
  exact congrArg (fun f => groups.mapM f) (funext fun b => hline b view.projection fun _ h => h)

/-- As long as all sums stay below 2⁵³ and no quotient is asked for, a SELECT prints the exact
lines. -/
theorem streamedRows_exact {view : SelectView} {groupCol : Option Nat}
    (hgrouping : view.grouping = some groupCol)
    (hquotients : ∀ column ∈ view.projection, column.funcType ≠ .avg) (rows : List (List Int))
    (hlen : ∀ row ∈ rows, row.length = view.columns.length)
    (hsmall : (rows.map fun row => ((exactValue view row).getD 0).natAbs).sum < exactBelow) :
    streamedRows view (rows.map fun row => row.map CStr.ofInt) =
      (exactGroups view groupCol rows).mapM (exactLine view groupCol) := by
  rw [streamedRows, hgrouping]
  dsimp only
  rw [updateBucket_exact view groupCol rows hlen hsmall, Option.bind_some,
    printGroups_toBucket groupCol hquotients]

theorem streamedRows_exact_least :
    streamedRows leastView ([[3], [5]].map fun row => row.map CStr.ofInt) =
      (exactGroups leastView none [[3], [5]]).mapM (exactLine leastView none) :=
  streamedRows_exact rfl (by decide) [[3], [5]] (by decide) (by decide)

end Executor
end InventixDB
