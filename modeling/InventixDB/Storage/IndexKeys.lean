import InventixDB.Storage.CStr

/-!
# IndexKeys — the composite keys of an index

The key of a row has a marker for each column, and behind the marker of a value its length in a
byte and its bytes.  The key goes into a buffer of 256 bytes; the space for a marker is not checked,
nor is there a check that the index has no more columns than it has room for.
-/

namespace InventixDB
namespace Storage
namespace IndexKeys

/-! ## Indexes -/

/-- `MAX_INDEX_COLUMNS` -/
def maxIndexColumns : Nat := 8

/-- `MAX_INDEX_NAME_LEN` -/
def maxIndexNameLen : Nat := 128

/-- `MAX_INDEX_KEY_SIZE` -/
def maxIndexKeySize : Nat := 256

inductive IndexType
  | btree | hash | fulltext | spatial
  deriving DecidableEq

inductive IndexColumnOrder
  | asc | desc
  deriving DecidableEq

structure IndexColumn where
  columnName : CStr
  columnPos : Int
  order : IndexColumnOrder
  keyPrefixLen : Int
  deriving DecidableEq

/-- `columns` are the elements of the array that have been set. -/
structure IndexDef where
  name : CStr
  tableName : CStr
  indexFile : CStr
  type : IndexType
  isUnique : Bool
  columnCount : Nat
  columns : List IndexColumn
  deriving DecidableEq

/-- `index_get`; an index is valid from its creation until it is dropped. -/
def indexGet (manager : List IndexDef) (tableName indexName : CStr) : Option IndexDef :=
  manager.find? fun idx => idx.tableName = tableName ∧ idx.name = indexName

/-- `index_create` copies the first eight columns, and counts all of them. -/
def indexCreate (manager : List IndexDef) (tableName indexName : CStr) (columns : List IndexColumn)
    (type : IndexType) (isUnique : Bool) : Option (IndexDef × List IndexDef) :=
  if columns = [] then none
  else if (indexGet manager tableName indexName).isSome then none
  else
    let idx : IndexDef :=
      { name := CStr.snprintf maxIndexNameLen indexName
        tableName := tableName
        indexFile := CStr.snprintf 256 (tableName ++ CStr.lit "_" ++ indexName ++ CStr.lit ".idx")
        type := type
        isUnique := isUnique
        columnCount := columns.length
        columns := columns.take maxIndexColumns }
    some (idx, manager ++ [idx])

/-! ## Keys -/

/-- `max_len` of a column -/
def maxLen (column : IndexColumn) : Nat :=
  if column.keyPrefixLen ≤ 0 then 255 else column.keyPrefixLen.toNat

/-- The loop of `index_build_key` at column `i`.  `none` is an access outside of the buffer or of
the columns, `some none` a value that has no room. -/
def buildKey (columns : List IndexColumn) :
    Nat → List (Option CStr) → List UInt8 → Option (Option (List UInt8))
  | _, [], key => some (some key)
  | i, none :: values, key =>
      if key.length < maxIndexKeySize then buildKey columns (i + 1) values (key ++ [0]) else none
  | i, some val :: values, key =>
      if key.length < maxIndexKeySize then
        columns[i]?.bind fun column =>
          let valLen := min val.length (maxLen column)
          if maxIndexKeySize < key.length + 1 + valLen + 2 then some none
          else
            buildKey columns (i + 1) values
              (key ++ [1] ++ [UInt8.ofNat valLen] ++ val.val.take valLen)
      else none

/-- There is a value for each column. -/
def indexBuildKey (index : IndexDef) (colValues : List (Option CStr)) :
    Option (Option (List UInt8)) :=
  if colValues.length < index.columnCount then none
  else buildKey index.columns 0 (colValues.take index.columnCount) []

/-- `index_key_compare`: `memcmp` of what both keys have, and then their lengths. -/
def indexKeyCompare (key1 key2 : List UInt8) : Ordering :=
  let minLen := min key1.length key2.length
  (List.compareLex compare (key1.take minLen) (key2.take minLen)).then
    (compare key1.length key2.length)

/-- Bytes come before every longer string that begins with them. -/
theorem indexKeyCompare_eq (key1 key2 : List UInt8) :
    indexKeyCompare key1 key2 = List.compareLex compare key1 key2 := by
  unfold indexKeyCompare
  induction key1 generalizing key2 with
  | nil =>
      cases key2 with
      | nil => rfl
      | cons d key2 => rfl
  | cons c key1 ih =>
      cases key2 with
      | nil => rfl
      | cons d key2 =>
          have hrest := ih key2
          simp only [List.length_cons, Nat.add_min_add_right, List.take_succ_cons,
            List.compareLex_cons_cons, Ordering.then_assoc] at hrest ⊢
          rw [← hrest]
          have hlength : compare (key1.length + 1) (key2.length + 1) =
              compare key1.length key2.length := by
            simp [Nat.compare_eq_ite_lt]
          rw [hlength]

/-! ## Contents -/

/-- How much of a value goes into the key; past the columns nothing says how much. -/
def prefixLength (columns : List IndexColumn) (i : Nat) : Nat :=
  (columns[i]?.map maxLen).getD 255

/-- The values, cut to the lengths of their columns. -/
def cutValues (columns : List IndexColumn) : Nat → List (Option CStr) → List (Option (List UInt8))
  | _, [] => []
  | i, v :: values =>
      (v.map fun val => val.val.take (prefixLength columns i)) :: cutValues columns (i + 1) values

/-- What the key has of a column. -/
def entry : Option (List UInt8) → List UInt8
  | none => [0]
  | some bytes => 1 :: UInt8.ofNat bytes.length :: bytes

theorem prefixLength_eq {columns : List IndexColumn} {i : Nat} {column : IndexColumn}
    (hcolumn : columns[i]? = some column) : prefixLength columns i = maxLen column := by
  rw [prefixLength, hcolumn]
  rfl

/-- A key is made of the entries of the columns, none of which is as long as a byte can count. -/
theorem buildKey_eq {columns : List IndexColumn} {i : Nat} {values : List (Option CStr)}
    {start key : List UInt8} (hkey : buildKey columns i values start = some (some key)) :
    key = start ++ (cutValues columns i values).flatMap entry ∧
      ∀ bytes, some bytes ∈ cutValues columns i values → bytes.length < 254 := by
  induction values generalizing i start with
  | nil =>
      cases hkey
      exact ⟨(List.append_nil _).symm, fun _ h => nomatch h⟩
  | cons v values ih =>
      cases v with
      | none =>
          rw [buildKey] at hkey
          split at hkey
          · obtain ⟨heq, hshort⟩ := ih hkey
            refine ⟨?_, fun bytes hbytes => hshort bytes ?_⟩
            · rw [heq, List.append_assoc]
              rfl
            · rcases List.mem_cons.mp hbytes with h | h
              · cases h
              · exact h
          · cases hkey
      | some val =>
          rw [buildKey] at hkey
          split at hkey
          · obtain ⟨column, hcolumn, hbuild⟩ := Option.bind_eq_some_iff.mp hkey
            dsimp only at hbuild
            split at hbuild
            · cases hbuild
            next hroom =>
                obtain ⟨heq, hshort⟩ := ih hbuild
                have htake : val.val.take (min val.length (maxLen column)) =
                    val.val.take (prefixLength columns i) := by
                  rw [prefixLength_eq hcolumn, Nat.min_comm]
                  exact List.take_eq_take_min.symm
                have hlen : (val.val.take (prefixLength columns i)).length =
                    min val.length (maxLen column) := by
                  rw [← htake, List.length_take, CStr.length]
                  omega
                refine ⟨?_, fun bytes hbytes => ?_⟩
                · rw [heq, htake, ← hlen]
                  simp only [cutValues, Option.map_some, List.flatMap_cons, entry,
                    List.append_assoc, List.cons_append, List.nil_append]
                · rcases List.mem_cons.mp hbytes with h | h
                  · rw [Option.some.inj h]
                    rw [hlen]
                    unfold maxIndexKeySize at hroom
                    omega
                  · exact hshort bytes h
          · cases hkey

/-! ## The order of keys -/

/-- `NULL` first, then shorter values before longer ones; those of one length by their bytes. -/
def entryOrder : Option (List UInt8) → Option (List UInt8) → Ordering
  | none, none => .eq
  | none, some _ => .lt
  | some _, none => .gt
  | some x, some y => (compare x.length y.length).then (List.compareLex compare x y)

/-- `NULL` first, then the values in the order of `strcmp`. -/
def valueOrder : Option CStr → Option CStr → Ordering
  | none, none => .eq
  | none, some _ => .lt
  | some _, none => .gt
  | some x, some y => List.compareLex compare x.val y.val

/-- Column by column. -/
def tupleOrder (v w : List (Option CStr)) : Ordering :=
  List.compareLex valueOrder v w

theorem compareLex_append {x y : List UInt8} (hlen : x.length = y.length) (r s : List UInt8) :
    List.compareLex compare (x ++ r) (y ++ s) =
      (List.compareLex compare x y).then (List.compareLex compare r s) := by
  induction x generalizing y with
  | nil =>
      rw [List.length_eq_zero_iff.mp hlen.symm]
      rfl
  | cons c x ih =>
      cases y with
      | nil => cases hlen
      | cons d y =>
          simp only [List.cons_append, List.compareLex_cons_cons, Ordering.then_assoc]
          rw [ih (Nat.succ.inj hlen)]

theorem compare_ofNat {m n : Nat} (hm : m < 254) (hn : n < 254) :
    compare (UInt8.ofNat m) (UInt8.ofNat n) = compare m n := by
  have hlt : ∀ {a b : Nat}, a < 254 → b < 254 → (UInt8.ofNat a < UInt8.ofNat b ↔ a < b) := by
    intro a b ha hb
    rw [UInt8.lt_iff_toNat_lt, UInt8.toNat_ofNat', UInt8.toNat_ofNat', Nat.mod_eq_of_lt (by omega),
      Nat.mod_eq_of_lt (by omega)]
  rcases Nat.lt_trichotomy m n with h | h | h
  · rw [Std.compare_eq_lt.mpr h, Std.compare_eq_lt.mpr ((hlt hm hn).mpr h)]
  · rw [h, Std.compare_self, Std.compare_self]
  · rw [Std.compare_eq_gt.mpr h, Std.compare_eq_gt.mpr ((hlt hn hm).mpr h)]

theorem compareLex_entry {v w : Option (List UInt8)} (hv : ∀ bytes ∈ v, bytes.length < 254)
    (hw : ∀ bytes ∈ w, bytes.length < 254) (r s : List UInt8) :
    List.compareLex compare (entry v ++ r) (entry w ++ s) =
      (entryOrder v w).then (List.compareLex compare r s) := by
  cases v with
  | none =>
      cases w with
      | none =>
          simp only [entry, List.cons_append, List.nil_append, List.compareLex_cons_cons,
            Std.compare_self, entryOrder, Ordering.eq_then]
      | some y =>
          have hmarker : compare (0 : UInt8) 1 = .lt := by decide
          simp only [entry, List.cons_append, List.nil_append, List.compareLex_cons_cons, hmarker,
            entryOrder, Ordering.lt_then]
  | some x =>
      cases w with
      | none =>
          have hmarker : compare (1 : UInt8) 0 = .gt := by decide
          simp only [entry, List.cons_append, List.nil_append, List.compareLex_cons_cons, hmarker,
            entryOrder, Ordering.gt_then]
      | some y =>
          simp only [entry, List.cons_append, List.compareLex_cons_cons, Std.compare_self,
            Ordering.eq_then, compare_ofNat (hv x rfl) (hw y rfl), entryOrder]
          by_cases hlen : x.length = y.length
          · rw [compareLex_append hlen, Ordering.then_assoc]
          · -- the lengths decide
            have hne : compare x.length y.length ≠ .eq := fun h => hlen (Std.compare_eq_iff_eq.mp h)
            cases hcmp : compare x.length y.length with
            | lt => rfl
            | eq => exact absurd hcmp hne
            | gt => rfl

/-- What the comparison of two keys of an index means. -/
theorem compareLex_entries {v w : List (Option (List UInt8))} (hlen : v.length = w.length)
    (hv : ∀ bytes, some bytes ∈ v → bytes.length < 254)
    (hw : ∀ bytes, some bytes ∈ w → bytes.length < 254) :
    List.compareLex compare (v.flatMap entry) (w.flatMap entry) =
      List.compareLex entryOrder v w := by
  induction v generalizing w with
  | nil =>
      rw [List.length_eq_zero_iff.mp hlen.symm]
      rfl
  | cons a v ih =>
      cases w with
      | nil => cases hlen
      | cons b w =>
          rw [List.flatMap_cons, List.flatMap_cons, List.compareLex_cons_cons,
            compareLex_entry (fun bytes h => hv bytes (h ▸ List.mem_cons_self))
              (fun bytes h => hw bytes (h ▸ List.mem_cons_self)),
            ih (Nat.succ.inj hlen) (fun bytes h => hv bytes (List.mem_cons_of_mem _ h))
              (fun bytes h => hw bytes (List.mem_cons_of_mem _ h))]

/-! ## Tuples -/

/-- No value is longer than what the key takes of it. -/
def WithinPrefixes (columns : List IndexColumn) (values : List (Option CStr)) : Prop :=
  ∀ i val, values[i]? = some (some val) → val.length ≤ prefixLength columns i

/-- In the first column in which the tuples have different values, these are of the same length or
the shorter one is the first. -/
def InKeyOrder (v w : List (Option CStr)) : Prop :=
  ∀ before x y restv restw, v = before ++ some x :: restv → w = before ++ some y :: restw → x ≠ y →
    x.length = y.length ∨ (x.length < y.length ↔ List.compareLex compare x.val y.val = .lt)

theorem cutValues_eq {columns : List IndexColumn} {i : Nat} {values : List (Option CStr)}
    (hvalues : ∀ j val, values[j]? = some (some val) → val.length ≤ prefixLength columns (i + j)) :
    cutValues columns i values = values.map fun v => v.map fun val => val.val := by
  induction values generalizing i with
  | nil => rfl
  | cons v values ih =>
      have hrest := ih (i := i + 1) fun j val hj => by
        have hval := hvalues (j + 1) val hj
        rw [show i + 1 + j = i + (j + 1) by omega]
        exact hval
      rw [cutValues, hrest, List.map_cons]
      refine congrArg (· :: _) ?_
      cases v with
      | none => rfl
      | some val =>
          have hval : val.length ≤ prefixLength columns i := hvalues 0 val rfl
          rw [Option.map_some, Option.map_some, List.take_of_length_le hval]

theorem length_cutValues (columns : List IndexColumn) (i : Nat) (values : List (Option CStr)) :
    (cutValues columns i values).length = values.length := by
  induction values generalizing i with
  | nil => rfl
  | cons v values ih => rw [cutValues, List.length_cons, List.length_cons, ih]

theorem inKeyOrder_cons {a : Option CStr} {v w : List (Option CStr)} :
    InKeyOrder (a :: v) (a :: w) ↔ InKeyOrder v w := by
  constructor
  · rintro horder before x y restv restw rfl rfl hne
    exact horder (a :: before) x y restv restw rfl rfl hne
  · intro horder before x y restv restw hv hw hne
    cases before with
    | nil =>
        rw [List.nil_append, List.cons.injEq] at hv hw
        exact absurd (Option.some.inj (hv.1.symm.trans hw.1)) hne
    | cons b before =>
        rw [List.cons_append, List.cons.injEq] at hv hw
        exact horder before x y restv restw hv.2 hw.2 hne

theorem inKeyOrder_of_ne {a b : Option CStr} (hab : a ≠ b) {v w : List (Option CStr)} :
    InKeyOrder (a :: v) (b :: w) ↔ ∀ x y, a = some x → b = some y →
      x.length = y.length ∨ (x.length < y.length ↔ List.compareLex compare x.val y.val = .lt) := by
  constructor
  · rintro horder x y rfl rfl
    exact horder [] x y v w rfl rfl fun heq => hab (congrArg some heq)
  · intro hvalues before x y restv restw hv hw hne
    cases before with
    | nil =>
        rw [List.nil_append, List.cons.injEq] at hv hw
        exact hvalues x y hv.1 hw.1
    | cons c before =>
        rw [List.cons_append, List.cons.injEq] at hv hw
        exact absurd (hv.1.trans hw.1.symm) hab

theorem compareLex_ne {x y : CStr} (hne : x ≠ y) : List.compareLex compare x.val y.val ≠ .eq :=
  fun h => hne (Subtype.ext (Std.compare_eq_iff_eq.mp h))

theorem then_of_ne {o p : Ordering} (ho : o ≠ .eq) : o.then p = o := by
  cases o with
  | lt => rfl
  | eq => exact absurd rfl ho
  | gt => rfl

/-- Two different values, by their lengths and by `strcmp`. -/
theorem shortlex_eq_lex {x y : CStr} (hne : x ≠ y) :
    (compare x.length y.length).then (List.compareLex compare x.val y.val) =
        List.compareLex compare x.val y.val ↔
      x.length = y.length ∨ (x.length < y.length ↔ List.compareLex compare x.val y.val = .lt) := by
  have hlex := compareLex_ne hne
  rcases Nat.lt_trichotomy x.length y.length with h | h | h
  · rw [Std.compare_eq_lt.mpr h, Ordering.lt_then]
    constructor
    · intro heq
      exact .inr ⟨fun _ => heq.symm, fun _ => h⟩
    · rintro (heq | hiff)
      · omega
      · exact (hiff.mp h).symm
  · rw [h, Std.compare_self, Ordering.eq_then]
    exact ⟨fun _ => .inl rfl, fun _ => rfl⟩
  · rw [Std.compare_eq_gt.mpr h, Ordering.gt_then]
    constructor
    · intro heq
      rw [← heq]
      exact .inr ⟨fun hlt => absurd hlt (Nat.lt_asymm h), fun hgt => nomatch hgt⟩
    · rintro (heq | hiff)
      · omega
      · cases hcmp : List.compareLex compare x.val y.val with
        | lt => exact absurd (hiff.mpr hcmp) (Nat.lt_asymm h)
        | eq => exact absurd hcmp hlex
        | gt => rfl

theorem entryOrder_eq_iff {v w : List (Option CStr)} (hlen : v.length = w.length) :
    List.compareLex entryOrder (v.map fun v => v.map fun val => val.val)
        (w.map fun v => v.map fun val => val.val) = tupleOrder v w ↔ InKeyOrder v w := by
  induction v generalizing w with
  | nil =>
      rw [List.length_eq_zero_iff.mp hlen.symm]
      refine ⟨fun _ before x y restv restw hv => ?_, fun _ => rfl⟩
      cases before <;> cases hv
  | cons a v ih =>
      cases w with
      | nil => cases hlen
      | cons b w =>
          rw [tupleOrder, List.map_cons, List.map_cons, List.compareLex_cons_cons,
            List.compareLex_cons_cons]
          by_cases hab : a = b
          · rw [hab, inKeyOrder_cons]
            have hentry :
                entryOrder (b.map fun val => val.val) (b.map fun val => val.val) = .eq := by
              cases b with
              | none => rfl
              | some y => simp [entryOrder]
            have hvalue : valueOrder b b = .eq := by
              cases b with
              | none => rfl
              | some y => simp [valueOrder]
            rw [hentry, hvalue, Ordering.eq_then, Ordering.eq_then]
            exact ih (Nat.succ.inj hlen)
          · rw [inKeyOrder_of_ne hab]
            cases a with
            | none =>
                cases b with
                | none => exact absurd rfl hab
                | some y => exact ⟨(fun _ x y hx => nomatch hx), fun _ => rfl⟩
            | some x =>
                cases b with
                | none => exact ⟨(fun _ x y _ hy => nomatch hy), fun _ => rfl⟩
                | some y =>
                    have hne : x ≠ y := fun heq => hab (congrArg some heq)
                    have hlex : List.compareLex compare x.val y.val ≠ .eq := compareLex_ne hne
                    have hshort : (compare x.length y.length).then
                        (List.compareLex compare x.val y.val) ≠ .eq :=
                      fun heq => hlex (Ordering.then_eq_eq.mp heq).2
                    change Ordering.then ((compare x.length y.length).then
                      (List.compareLex compare x.val y.val)) _ =
                        (List.compareLex compare x.val y.val).then _ ↔ _
                    rw [then_of_ne hshort, then_of_ne hlex, shortlex_eq_lex hne]
                    refine ⟨fun horder x' y' hx hy => ?_, fun horder => horder x y rfl rfl⟩
                    cases hx
                    cases hy
                    exact horder

/-- The values of a key that was built. -/
theorem indexBuildKey_eq {index : IndexDef} {values : List (Option CStr)} {key : List UInt8}
    (hkey : indexBuildKey index values = some (some key)) :
    index.columnCount ≤ values.length ∧
      key = (cutValues index.columns 0 (values.take index.columnCount)).flatMap entry ∧
      ∀ bytes, some bytes ∈ cutValues index.columns 0 (values.take index.columnCount) →
        bytes.length < 254 := by
  unfold indexBuildKey at hkey
  split at hkey
  · cases hkey
  next hlen => exact ⟨Nat.le_of_not_lt hlen, buildKey_eq hkey⟩

/-- The keys of an index are in the order of the tuples just when the first different values are
not of different lengths in the other order. -/
theorem indexKeyCompare_iff {index : IndexDef} {v w : List (Option CStr)} {keyv keyw : List UInt8}
    (hlenv : v.length = index.columnCount) (hlenw : w.length = index.columnCount)
    (hv : WithinPrefixes index.columns v) (hw : WithinPrefixes index.columns w)
    (hkeyv : indexBuildKey index v = some (some keyv))
    (hkeyw : indexBuildKey index w = some (some keyw)) :
    indexKeyCompare keyv keyw = tupleOrder v w ↔ InKeyOrder v w := by
  obtain ⟨_, hkeyv, hshortv⟩ := indexBuildKey_eq hkeyv
  obtain ⟨_, hkeyw, hshortw⟩ := indexBuildKey_eq hkeyw
  rw [List.take_of_length_le (Nat.le_of_eq hlenv)] at hkeyv hshortv
  rw [List.take_of_length_le (Nat.le_of_eq hlenw)] at hkeyw hshortw
  have hcutv : cutValues index.columns 0 v = v.map fun v => v.map fun val => val.val :=
    cutValues_eq fun j val hj => by
      rw [Nat.zero_add]
      exact hv j val hj
  have hcutw : cutValues index.columns 0 w = w.map fun v => v.map fun val => val.val :=
    cutValues_eq fun j val hj => by
      rw [Nat.zero_add]
      exact hw j val hj
  rw [hcutv] at hkeyv hshortv
  rw [hcutw] at hkeyw hshortw
  rw [indexKeyCompare_eq, hkeyv, hkeyw,
    compareLex_entries (by rw [List.length_map, List.length_map, hlenv, hlenw]) hshortv hshortw]
  exact entryOrder_eq_iff (hlenv.trans hlenw.symm)

/-- An index over one column. -/
def nameIndex : IndexDef where
  name := CStr.lit "by_name"
  tableName := CStr.lit "users"
  indexFile := CStr.lit "users_by_name.idx"
  type := .btree
  isUnique := false
  columnCount := 1
  columns := [{ columnName := CStr.lit "name", columnPos := 0, order := .asc, keyPrefixLen := 0 }]

theorem withinPrefixes_one {val : CStr} (hlen : val.length ≤ 255) :
    WithinPrefixes nameIndex.columns [some val] := by
  intro i x hx
  cases i with
  | zero =>
      cases hx
      exact hlen
  | succ i => cases hx

theorem indexKeyCompare_letters :
    indexKeyCompare [1, 1, 97] [1, 1, 98] =
        tupleOrder [some (CStr.lit "a")] [some (CStr.lit "b")] ↔
      InKeyOrder [some (CStr.lit "a")] [some (CStr.lit "b")] :=
  @indexKeyCompare_iff nameIndex [some (CStr.lit "a")] [some (CStr.lit "b")] [1, 1, 97] [1, 1, 98]
    rfl rfl (withinPrefixes_one (by decide)) (withinPrefixes_one (by decide)) (by decide)
    (by decide)

/-- `b` is before `aa` in the index. -/
theorem longer_value_behind :
    (indexCreate [] nameIndex.tableName nameIndex.name nameIndex.columns .btree false).map
        Prod.fst = some nameIndex ∧
      indexBuildKey nameIndex [some (CStr.lit "b")] = some (some [1, 1, 98]) ∧
      indexBuildKey nameIndex [some (CStr.lit "aa")] = some (some [1, 2, 97, 97]) ∧
      indexKeyCompare [1, 1, 98] [1, 2, 97, 97] = .lt ∧
      tupleOrder [some (CStr.lit "b")] [some (CStr.lit "aa")] = .gt := by
  decide +kernel

/-! ## Bounds -/

section Bounds

variable {columns : List IndexColumn} {i j offset : Nat} {v : Option CStr}
  {values : List (Option CStr)}

/-- The bytes of a column's entry. -/
def entryLength (columns : List IndexColumn) (i : Nat) : Option CStr → Nat
  | none => 1
  | some val => 2 + min val.length (prefixLength columns i)

/-- The bytes of the entries from column `i` on. -/
def keyLength (columns : List IndexColumn) : Nat → List (Option CStr) → Nat
  | _, [] => 0
  | i, v :: values => entryLength columns i v + keyLength columns (i + 1) values

/-- From column `i` at `offset` on: the `j`-th value has no room behind the entries before it. -/
def Refused (columns : List IndexColumn) (i offset : Nat) (values : List (Option CStr)) (j : Nat) :
    Prop :=
  ∃ val, values[j]? = some (some val) ∧
    maxIndexKeySize < offset + keyLength columns i (values.take j) + 3 +
      min val.length (prefixLength columns (i + j))

/-- Every column that is reached has room for its marker, and is among the first eight if it has a
value. -/
def KeyFits (columns : List IndexColumn) (i offset : Nat) (values : List (Option CStr)) : Prop :=
  ∀ j v, values[j]? = some v → (∀ k < j, ¬ Refused columns i offset values k) →
    offset + keyLength columns i (values.take j) < maxIndexKeySize ∧
      (v ≠ none → i + j < maxIndexColumns)

theorem refused_succ : Refused columns i offset (v :: values) (j + 1) ↔
    Refused columns (i + 1) (offset + entryLength columns i v) values j := by
  unfold Refused
  rw [List.getElem?_cons_succ, List.take_succ_cons, keyLength, ← Nat.add_assoc offset,
    show i + (j + 1) = i + 1 + j by omega]

theorem keyFits_cons : KeyFits columns i offset (v :: values) ↔
    offset < maxIndexKeySize ∧ (v ≠ none → i < maxIndexColumns) ∧
      (¬ Refused columns i offset (v :: values) 0 →
        KeyFits columns (i + 1) (offset + entryLength columns i v) values) := by
  constructor
  · intro hfits
    obtain ⟨hroom, hcolumn⟩ := hfits 0 v rfl fun k hk => absurd hk (Nat.not_lt_zero k)
    refine ⟨hroom, hcolumn, fun hfirst j w hw hearlier => ?_⟩
    have hreached : ∀ k < j + 1, ¬ Refused columns i offset (v :: values) k := by
      intro k hk
      cases k with
      | zero => exact hfirst
      | succ k => exact mt refused_succ.mp (hearlier k (Nat.lt_of_succ_lt_succ hk))
    obtain ⟨hlen, hlate⟩ := hfits (j + 1) w hw hreached
    rw [List.take_succ_cons, keyLength, ← Nat.add_assoc] at hlen
    exact ⟨hlen, fun hne => by have := hlate hne; omega⟩
  · rintro ⟨hroom, hcolumn, hrest⟩ j w hw hearlier
    cases j with
    | zero =>
        cases hw
        exact ⟨hroom, hcolumn⟩
    | succ j =>
        have hfirst := hearlier 0 (Nat.succ_pos j)
        obtain ⟨hlen, hlate⟩ := hrest hfirst j w hw fun k hk hrefused =>
          hearlier (k + 1) (Nat.succ_lt_succ hk) (refused_succ.mpr hrefused)
        rw [List.take_succ_cons, keyLength, ← Nat.add_assoc]
        exact ⟨hlen, fun hne => by have := hlate hne; omega⟩

/-- Columns past the eighth are not there. -/
theorem buildKey_isSome_iff {key : List UInt8}
    (hcolumns : columns.length = min maxIndexColumns (i + values.length)) :
    (buildKey columns i values key).isSome ↔ KeyFits columns i key.length values := by
  induction values generalizing i key with
  | nil => exact iff_of_true rfl fun j v hv => nomatch hv
  | cons v values ih =>
      have hrest : ∀ longer : List UInt8, (buildKey columns (i + 1) values longer).isSome ↔
          KeyFits columns (i + 1) longer.length values :=
        fun longer => ih (by rw [hcolumns, List.length_cons]; omega)
      rw [keyFits_cons]
      cases v with
      | none =>
          have hnever : ¬ Refused columns i key.length (none :: values) 0 := by
            rintro ⟨val, hval, _⟩
            cases hval
          rw [buildKey]
          by_cases hroom : key.length < maxIndexKeySize
          · rw [if_pos hroom, hrest, List.length_append, List.length_singleton]
            exact ⟨fun hfits => ⟨hroom, (fun hne => absurd rfl hne), fun _ => hfits⟩,
              fun hfits => hfits.2.2 hnever⟩
          · rw [if_neg hroom]
            exact iff_of_false Bool.false_ne_true fun hfits => hroom hfits.1
      | some val =>
          rw [buildKey]
          by_cases hroom : key.length < maxIndexKeySize
          · rw [if_pos hroom]
            by_cases hfirst : i < maxIndexColumns
            · have hlen : i < columns.length := by
                rw [hcolumns, List.length_cons]
                omega
              have hcolumn := List.getElem?_eq_getElem hlen
              rw [hcolumn, Option.bind_some, ← prefixLength_eq hcolumn]
              dsimp only
              have hrefused : Refused columns i key.length (some val :: values) 0 ↔
                  maxIndexKeySize <
                    key.length + 1 + min val.length (prefixLength columns i) + 2 := by
                simp only [Refused, List.take_zero, keyLength, Nat.add_zero]
                constructor
                · rintro ⟨x, hx, hlong⟩
                  cases hx
                  omega
                · intro hlong
                  exact ⟨val, rfl, by omega⟩
              by_cases hlong : maxIndexKeySize <
                  key.length + 1 + min val.length (prefixLength columns i) + 2
              · rw [if_pos hlong]
                exact iff_of_true rfl
                  ⟨hroom, fun _ => hfirst, fun h => absurd (hrefused.mpr hlong) h⟩
              · rw [if_neg hlong, hrest]
                have hentry : (key ++ [1] ++
                    [UInt8.ofNat (min val.length (prefixLength columns i))] ++
                      val.val.take (min val.length (prefixLength columns i))).length =
                    key.length + entryLength columns i (some val) := by
                  simp only [List.length_append, List.length_singleton, List.length_take,
                    entryLength, CStr.length]
                  omega
                rw [hentry]
                exact ⟨fun hfits => ⟨hroom, fun _ => hfirst, fun _ => hfits⟩,
                  fun hfits => hfits.2.2 (mt hrefused.mp hlong)⟩
            · have hmissing : columns[i]? = none := by
                refine List.getElem?_eq_none ?_
                rw [hcolumns]
                omega
              rw [hmissing]
              exact iff_of_false Bool.false_ne_true fun hfits =>
                hfirst (hfits.2.1 (fun h => nomatch h))
          · rw [if_neg hroom]
            exact iff_of_false Bool.false_ne_true fun hfits => hroom hfits.1

end Bounds

/-! ## Distinct tuples -/

theorem eq_of_entryOrder : ∀ {a b : Option (List UInt8)}, entryOrder a b = .eq → a = b
  | none, none, _ => rfl
  | none, some _, h => nomatch h
  | some _, none, h => nomatch h
  | some _, some _, h => congrArg some (Std.compare_eq_iff_eq.mp (Ordering.then_eq_eq.mp h).2)

theorem eq_of_compareLex_entryOrder {v w : List (Option (List UInt8))}
    (heq : List.compareLex entryOrder v w = .eq) : v = w := by
  induction v generalizing w with
  | nil =>
      cases w with
      | nil => rfl
      | cons b w => cases heq
  | cons a v ih =>
      cases w with
      | nil => cases heq
      | cons b w =>
          rw [List.compareLex_cons_cons, Ordering.then_eq_eq] at heq
          rw [eq_of_entryOrder heq.1, ih heq.2]

theorem cutValues_inj {index : IndexDef} {v w : List (Option CStr)} {key : List UInt8}
    (hlenv : v.length = index.columnCount) (hlenw : w.length = index.columnCount)
    (hv : indexBuildKey index v = some (some key)) (hw : indexBuildKey index w = some (some key)) :
    cutValues index.columns 0 v = cutValues index.columns 0 w := by
  obtain ⟨_, hkeyv, hshortv⟩ := indexBuildKey_eq hv
  obtain ⟨_, hkeyw, hshortw⟩ := indexBuildKey_eq hw
  rw [List.take_of_length_le (Nat.le_of_eq hlenv)] at hkeyv hshortv
  rw [List.take_of_length_le (Nat.le_of_eq hlenw)] at hkeyw hshortw
  refine eq_of_compareLex_entryOrder ?_
  rw [← compareLex_entries (by rw [length_cutValues, length_cutValues, hlenv, hlenw]) hshortv
    hshortw, ← hkeyv, ← hkeyw]
  exact (Std.compare_self : compare key key = .eq)

/-- The key stays inside of its buffer and of the columns, and no other tuple has it. -/
def KeySound (index : IndexDef) (values : List (Option CStr)) : Prop :=
  (indexBuildKey index values).isSome ∧
    ∀ other key, other.length = index.columnCount → indexBuildKey index values = some (some key) →
      indexBuildKey index other = some (some key) →
        cutValues index.columns 0 values = cutValues index.columns 0 other

/-- Of an index that has been created, the keys of just these tuples are bounded. -/
theorem keySound_iff {manager after : List IndexDef} {tableName indexName : CStr}
    {columns : List IndexColumn} {type : IndexType} {isUnique : Bool} {index : IndexDef}
    (hcreate : indexCreate manager tableName indexName columns type isUnique = some (index, after))
    {values : List (Option CStr)} (hlen : values.length = index.columnCount) :
    KeySound index values ↔ KeyFits index.columns 0 0 values := by
  have hcolumns : index.columns.length = min maxIndexColumns (0 + values.length) := by
    unfold indexCreate at hcreate
    split at hcreate
    · cases hcreate
    · split at hcreate
      · cases hcreate
      · cases hcreate
        rw [hlen, Nat.zero_add, List.length_take]
  have hbuild : (indexBuildKey index values).isSome ↔ KeyFits index.columns 0 0 values := by
    rw [indexBuildKey, if_neg (by omega), List.take_of_length_le (Nat.le_of_eq hlen)]
    exact buildKey_isSome_iff hcolumns
  rw [KeySound, hbuild]
  exact and_iff_left fun other key hother hvalues hsame => cutValues_inj hlen hother hvalues hsame

/-- An index over three columns. -/
def wideColumns : List IndexColumn :=
  List.replicate 3 { columnName := CStr.lit "c", columnPos := 0, order := .asc, keyPrefixLen := 0 }

/-- An index over two of them. -/
def pairIndex : IndexDef :=
  { nameIndex with columnCount := 2, columns := wideColumns.take 2 }

theorem keySound_null :
    KeySound pairIndex [some (CStr.lit "b"), none] :=
  (@keySound_iff [] [pairIndex] (CStr.lit "users") (CStr.lit "by_name") pairIndex.columns .btree
    false pairIndex (by decide +kernel) [some (CStr.lit "b"), none] rfl).mpr
    (keyFits_cons.mpr ⟨by decide, fun _ => by decide, fun _ =>
      keyFits_cons.mpr ⟨by decide, fun h => absurd rfl h, fun _ j v hv => nomatch hv⟩⟩)

/-- Behind a value of 253 bytes there is room for one marker only. -/
theorem markers_overflow :
    ∃ index, (indexCreate [] (CStr.lit "t") (CStr.lit "i") wideColumns .btree false).map Prod.fst =
        some index ∧
      indexBuildKey index [some (CStr.ofBytes (List.replicate 253 120)), none, none] = none := by
  refine ⟨_, rfl, ?_⟩
  decide +kernel

end IndexKeys
end Storage
end InventixDB
