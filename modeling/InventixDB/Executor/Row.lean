import InventixDB.Storage.CStr

/-!
# Row — the binary format of a table row

A row is a column count followed by length-prefixed column texts.
-/

namespace InventixDB
namespace Executor

open Storage
open Lib.ByteCodec

/-- `row_serialize`; a column whose length is no `int` is copied out of bounds. -/
def rowSerialize (values : List CStr) : Option (List UInt8) :=
  if values.all fun v => v.length < 2 ^ 31 then
    some (leBytes 4 values.length ++ values.flatMap fun v => leBytes 4 v.length ++ v.val)
  else none

/-- The column loop of `row_deserialize`, which trusts every length it reads.  As a `size_t` a
negative one reaches far beyond any row. -/
def readColumns : Nat → List UInt8 → Option (List CStr)
  | 0, _ => some []
  | count + 1, bs =>
      match readLE 4 bs with
      | none => none
      | some (len, bs) =>
          if len < 2 ^ 31 then
            match readExact len bs with
            | none => none
            | some (col, bs) => (readColumns count bs).map (CStr.ofBytes col :: ·)
          else none

/-- `row_deserialize`: the inner `none` is its `NULL`, the outer one a read out of bounds. -/
def rowDeserialize (data : List UInt8) : Option (Option (List CStr)) :=
  match readLE 4 data with
  | none => some none
  | some (count, bs) =>
      if count ≤ 1000 then (readColumns count bs).map some else some none

/-! ## Reading back what was written -/

theorem readColumns_serialized {values : List CStr} (hlen : ∀ v ∈ values, v.length < 2 ^ 31)
    (rest : List UInt8) :
    readColumns values.length
        ((values.flatMap fun v => leBytes 4 v.length ++ v.val) ++ rest) = some values := by
  induction values with
  | nil => rfl
  | cons v values ih =>
      have hv : v.length < 256 ^ 4 := (hlen v List.mem_cons_self).trans (by decide)
      rw [List.length_cons, readColumns, List.flatMap_cons, List.append_assoc, List.append_assoc,
        readLE_append hv]
      dsimp only
      rw [if_pos (hlen v List.mem_cons_self), CStr.length, readExact_append]
      dsimp only
      rw [ih fun w hw => hlen w (List.mem_cons_of_mem v hw), Option.map_some, CStr.ofBytes_val]

/-- A row of at most 1000 columns is read back as it was written. -/
theorem rowDeserialize_rowSerialize {values : List CStr} {data : List UInt8}
    (hcount : values.length ≤ 1000) (hdata : rowSerialize values = some data) :
    rowDeserialize data = some (some values) := by
  unfold rowSerialize at hdata
  split at hdata
  · next hall =>
      cases hdata
      have hlen : ∀ v ∈ values, v.length < 2 ^ 31 := by
        intro v hv
        exact of_decide_eq_true (List.all_eq_true.mp hall v hv)
      have hwidth : values.length < 256 ^ 4 := lt_of_le_of_lt hcount (by decide)
      have hread := readColumns_serialized hlen []
      rw [List.append_nil] at hread
      rw [rowDeserialize, readLE_append hwidth]
      dsimp only
      rw [if_pos hcount, hread, Option.map_some]
  · cases hdata

theorem length_readColumns {count : Nat} {bs : List UInt8} {values : List CStr}
    (hread : readColumns count bs = some values) : values.length = count := by
  induction count generalizing bs values with
  | zero =>
      cases hread
      rfl
  | succ count ih =>
      unfold readColumns at hread
      split at hread
      · cases hread
      split at hread
      · split at hread
        · cases hread
        · obtain ⟨cols, hcols, rfl⟩ := Option.map_eq_some_iff.mp hread
          rw [List.length_cons, ih hcols]
      · cases hread

theorem length_rowDeserialize {data : List UInt8} {values : List CStr}
    (hread : rowDeserialize data = some (some values)) : values.length ≤ 1000 := by
  unfold rowDeserialize at hread
  split at hread
  · cases hread
  · split at hread
    · next hcount =>
        obtain ⟨cols, hcols, heq⟩ := Option.map_eq_some_iff.mp hread
        cases heq
        exact (length_readColumns hcols).trans_le hcount
    · cases hread

/-- A row of more columns is not read, and one of fewer is the row that was written. -/
theorem rowDeserialize_eq {values row : List CStr} {data : List UInt8}
    (hcount : values.length < 2 ^ 32) (hdata : rowSerialize values = some data)
    (hread : rowDeserialize data = some (some row)) : row = values := by
  by_cases hfew : values.length ≤ 1000
  · rw [rowDeserialize_rowSerialize hfew hdata] at hread
    cases hread
    rfl
  · unfold rowSerialize at hdata
    split at hdata
    · cases hdata
      rw [rowDeserialize, readLE_append hcount] at hread
      dsimp only at hread
      rw [if_neg hfew] at hread
      cases hread
    · cases hdata

/-- A row comes back from its bytes if and only if it has at most 1000 columns, each with a length
that is an `int`. -/
theorem row_roundTrip_iff (values : List CStr) :
    (∃ data, rowSerialize values = some data ∧ rowDeserialize data = some (some values)) ↔
      values.length ≤ 1000 ∧ ∀ v ∈ values, v.length < 2 ^ 31 := by
  constructor
  · rintro ⟨data, hdata, hread⟩
    refine ⟨length_rowDeserialize hread, ?_⟩
    unfold rowSerialize at hdata
    split at hdata
    · next hall =>
        intro v hv
        exact of_decide_eq_true (List.all_eq_true.mp hall v hv)
    · cases hdata
  · rintro ⟨hcount, hlen⟩
    have hall : (values.all fun v => decide (v.length < 2 ^ 31)) = true :=
      List.all_eq_true.mpr fun v hv => decide_eq_true (hlen v hv)
    have hdata : rowSerialize values = some (leBytes 4 values.length ++
        values.flatMap fun v => leBytes 4 v.length ++ v.val) := if_pos hall
    exact ⟨_, hdata, rowDeserialize_rowSerialize hcount hdata⟩

/-- A row of 1001 ones is written, and reading it back gives `NULL`. -/
theorem row_of_many_columns :
    ∃ data, rowSerialize (List.replicate 1001 (CStr.lit "1")) = some data ∧
      rowDeserialize data = some none := by
  have hall : ((List.replicate 1001 (CStr.lit "1")).all fun v => decide (v.length < 2 ^ 31)) =
      true := by
    rw [List.all_replicate]
    decide
  refine ⟨_, if_pos hall, ?_⟩
  rw [List.length_replicate, rowDeserialize, readLE_append (by decide)]
  rfl

/-! ## Bytes of unknown origin -/

/-- A column as it stands in a row. -/
def columnBytes (col : List UInt8) : List UInt8 :=
  leBytes 4 col.length ++ col

/-- What the column loop returns is cut out of the bytes it has read. -/
theorem readColumns_eq_some {count : Nat} {bs : List UInt8} {values : List CStr} :
    readColumns count bs = some values ↔
      ∃ (cols : List (List UInt8)) (rest : List UInt8), cols.length = count ∧
        (∀ col ∈ cols, col.length < 2 ^ 31) ∧ bs = cols.flatMap columnBytes ++ rest ∧
          values = cols.map CStr.ofBytes := by
  induction count generalizing bs values with
  | zero =>
      constructor
      · intro hread
        cases hread
        exact ⟨[], bs, rfl, by simp, rfl, rfl⟩
      · rintro ⟨cols, rest, hcount, _, _, rfl⟩
        rw [List.length_eq_zero_iff.mp hcount]
        rfl
  | succ count ih =>
      constructor
      · intro hread
        unfold readColumns at hread
        split at hread
        · cases hread
        · next len bs₁ hlen =>
            split at hread
            · next hint =>
                split at hread
                · cases hread
                · next col bs₂ hcol =>
                    obtain ⟨values, hrest, rfl⟩ := Option.map_eq_some_iff.mp hread
                    obtain ⟨_, rfl⟩ := readLE_eq_some.mp hlen
                    obtain ⟨rfl, rfl⟩ := readExact_eq_some.mp hcol
                    obtain ⟨cols, rest, rfl, hlens, rfl, rfl⟩ := ih.mp hrest
                    refine ⟨col :: cols, rest, rfl, List.forall_mem_cons.mpr ⟨hint, hlens⟩, ?_, rfl⟩
                    rw [List.flatMap_cons, columnBytes, List.append_assoc, List.append_assoc]
            · cases hread
      · rintro ⟨cols, rest, hcount, hlens, rfl, rfl⟩
        cases cols with
        | nil => cases hcount
        | cons col cols =>
            obtain ⟨hint, hlens⟩ := List.forall_mem_cons.mp hlens
            have hwidth : col.length < 256 ^ 4 := hint.trans (by decide)
            rw [readColumns, List.flatMap_cons, columnBytes, List.append_assoc, List.append_assoc,
              readLE_append hwidth]
            dsimp only
            rw [if_pos hint, readExact_append]
            dsimp only
            rw [ih.mpr ⟨cols, rest, Nat.succ_inj.mp hcount, hlens, rfl, rfl⟩]
            rfl

/-- The decoder reads nothing behind the bytes, and its values are cut out of them. -/
def DecodesInside (data : List UInt8) : Prop :=
  ∃ row, rowDeserialize data = some row ∧
    ∀ values ∈ row, ∀ v ∈ values, ∃ pos len, pos + len ≤ data.length ∧
      v = CStr.ofBytes ((data.drop pos).take len)

theorem mem_flatMap_columnBytes {cols : List (List UInt8)} {col : List UInt8} (hcol : col ∈ cols) :
    ∃ before behind, cols.flatMap columnBytes = before ++ col ++ behind := by
  obtain ⟨front, back, rfl⟩ := List.append_of_mem hcol
  refine ⟨front.flatMap columnBytes ++ leBytes 4 col.length, back.flatMap columnBytes, ?_⟩
  rw [List.flatMap_append, List.flatMap_cons, columnBytes]
  simp only [List.append_assoc]

/-- A row that begins with a count of at most 1000 is read inside its bytes exactly when they
continue with that many columns. -/
theorem rowDeserialize_inside_iff (data : List UInt8) :
    DecodesInside data ↔
      data.length < 4 ∨ leNat (data.take 4) > 1000 ∨
        ∃ (cols : List (List UInt8)) (rest : List UInt8), cols.length ≤ 1000 ∧
          (∀ col ∈ cols, col.length < 2 ^ 31) ∧
          data = leBytes 4 cols.length ++ cols.flatMap columnBytes ++ rest := by
  cases hread : readLE 4 data with
  | none =>
      have hshort : data.length < 4 := by
        by_contra hlong
        have hexact : readExact 4 data = some (data.take 4, data.drop 4) :=
          if_pos (Nat.le_of_not_lt hlong)
        rw [readLE, hexact] at hread
        cases hread
      refine ⟨fun _ => .inl hshort, fun _ => ⟨none, ?_, by simp⟩⟩
      rw [rowDeserialize, hread]
  | some r =>
      obtain ⟨count, bs⟩ := r
      obtain ⟨hcount, rfl⟩ := readLE_eq_some.mp hread
      have hlong : ¬ (leBytes 4 count ++ bs).length < 4 := by simp
      have htake : leNat ((leBytes 4 count ++ bs).take 4) = count := by
        rw [List.take_left' (length_leBytes 4 count), leNat_leBytes, Nat.mod_eq_of_lt hcount]
      have hrow : rowDeserialize (leBytes 4 count ++ bs) =
          if count ≤ 1000 then (readColumns count bs).map some else some none := by
        rw [rowDeserialize, hread]
      simp only [hlong, htake, false_or]
      by_cases hmany : count > 1000
      · refine ⟨fun _ => .inl hmany, fun _ => ⟨none, ?_, by simp⟩⟩
        rw [hrow, if_neg (Nat.not_le_of_lt hmany)]
      · have hfew := Nat.le_of_not_lt hmany
        rw [if_pos hfew] at hrow
        simp only [hmany, false_or]
        constructor
        · rintro ⟨row, hok, _⟩
          rw [hrow] at hok
          obtain ⟨values, hcols, _⟩ := Option.map_eq_some_iff.mp hok
          obtain ⟨cols, rest, rfl, hlens, rfl, _⟩ := readColumns_eq_some.mp hcols
          exact ⟨cols, rest, hfew, hlens, (List.append_assoc _ _ _).symm⟩
        · rintro ⟨cols, rest, hcols, hlens, hdata⟩
          have hwidth : cols.length < 256 ^ 4 := Nat.lt_of_le_of_lt hcols (by decide)
          obtain ⟨hsame, hbs⟩ : cols.length = count ∧ bs = cols.flatMap columnBytes ++ rest := by
            have hagain := readLE_append hwidth (cols.flatMap columnBytes ++ rest)
            rw [← List.append_assoc, ← hdata, hread] at hagain
            cases hagain
            exact ⟨rfl, rfl⟩
          have hvalues : readColumns count bs = some (cols.map CStr.ofBytes) :=
            readColumns_eq_some.mpr ⟨cols, rest, hsame, hlens, hbs, rfl⟩
          refine ⟨some (cols.map CStr.ofBytes), by rw [hrow, hvalues]; rfl, ?_⟩
          rintro values hmem v hv
          cases hmem
          obtain ⟨col, hcol, rfl⟩ := List.mem_map.mp hv
          obtain ⟨before, behind, hsplit⟩ := mem_flatMap_columnBytes hcol
          rw [hdata, hsplit]
          refine ⟨(leBytes 4 cols.length ++ before).length, col.length, ?_, ?_⟩
          · simp only [List.length_append]
            omega
          · rw [show leBytes 4 cols.length ++ (before ++ col ++ behind) ++ rest =
              (leBytes 4 cols.length ++ before) ++ (col ++ (behind ++ rest)) by
                simp only [List.append_assoc], List.drop_left, List.take_left]

/-- A count of one column, and nothing behind it. -/
theorem rowDeserialize_reads_outside :
    rowDeserialize [1, 0, 0, 0] = none ∧ ¬ DecodesInside [1, 0, 0, 0] := by
  have hrow : rowDeserialize [1, 0, 0, 0] = none := by decide +kernel
  refine ⟨hrow, ?_⟩
  rintro ⟨row, hok, _⟩
  rw [hrow] at hok
  cases hok

end Executor
end InventixDB
