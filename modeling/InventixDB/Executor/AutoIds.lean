import InventixDB.Executor.Generations
import InventixDB.Lib.Runs

/-!
# AutoIds — the numbers AUTO draws from the counter of a table

The counter is a key of its own.  DROP TABLE deletes it and CREATE TABLE sets it back to zero, and
both leave the rows where they are; a delete that empties a slot on the way to the counter hides it.
In each case the numbers start again from one.
-/

namespace InventixDB
namespace Executor

open Storage
open Sql
open Transaction
open Lib
open Lib.OpenAddressing

variable {n : Nat} [NeZero n]

/-! ## Histories -/

/-- A statement of some session. -/
def statementStep (db : Db n) (s : SessionContext × ASTNode) : Option (Db n) :=
  (executeQuery db s.1 s.2).map Prod.fst

/-- INSERT, DELETE, DROP TABLE and CREATE TABLE; a table name is one word. -/
def isHistoryStatement : ASTNode → Bool
  | .insert tableName _ => Sql.isWord tableName
  | .delete _ _ => true
  | .dropTable tableName => Sql.isWord tableName
  | .createTable tableName _ => Sql.isWord tableName
  | _ => false

/-! ## The numbers of a table -/

/-- The id in a row key of the table. -/
def rowId (database tableName key : CStr) : Option CStr :=
  if CStr.startsWith (rowPrefix database tableName) key then
    some (CStr.ofBytes (key.val.drop (rowPrefix database tableName).length))
  else none

/-- The all-digit ids of the rows of a table. -/
def numericIds (t : Table CStr Value n) (database tableName : CStr) : List CStr :=
  ((toList t).filterMap fun e => rowId database tableName e.1).filter isNumeric

/-- No all-digit id of the table is larger than `c`. -/
def Covers (t : Table CStr Value n) (database tableName : CStr) (c : Int) : Prop :=
  ∀ id ∈ numericIds t database tableName, CStr.digitsValue id.val ≤ c

/-- The number behind `c` is the id of no row, and no row has a larger one. -/
def NextIsFree (t : Table CStr Value n) (database tableName : CStr) (c : Int) : Prop :=
  ∀ id ∈ numericIds t database tableName,
    CStr.digitsValue id.val ≤ c + 1 ∧ id ≠ CStr.ofInt (c + 1)

instance instDecidableNextIsFree (t : Table CStr Value n) (database tableName : CStr) (c : Int) :
    Decidable (NextIsFree t database tableName c) :=
  inferInstanceAs (Decidable (∀ id ∈ numericIds t database tableName, _))

/-! ## What AUTO promises -/

/-- A row with AUTO is stored under the next number of the counter, which no row had before, and the
counter is then no smaller than any all-digit id of the table. -/
def DrawsFresh (ctx : SessionContext) (tableName : CStr) (schema : Option CStr)
    (state : Db n × Nat) (vals : List CStr) : Prop :=
  vals[pkIndex schema]? = some (CStr.lit "AUTO") →
    ∃ seq, (counterOf state.1 (counterKey ctx.currentDb tableName) 0).bind nextInt = some seq ∧
      ¬ Holds state.1.store.entries (rowKey ctx.currentDb tableName (CStr.ofInt seq)) ∧
      ∀ after ∈ insertRow ctx tableName schema state vals,
        (∃ data, rowSerialize (vals.set (pkIndex schema) (CStr.ofInt seq)) = some data ∧
          kvGet after.1.store (rowKey ctx.currentDb tableName (CStr.ofInt seq)) =
            some { data := data, type := .row }) ∧
        ∃ c, counterOf after.1 (counterKey ctx.currentDb tableName) 0 = some c ∧
          Covers after.1.store.entries ctx.currentDb tableName c

/-- Every row of an INSERT into the table keeps the promise. -/
def AutoFresh (database tableName : CStr) (db : Db n) (s : SessionContext × ASTNode) : Prop :=
  match s.2 with
  | .insert name rows =>
      s.1.currentDb = database ∧ name = tableName →
        ∀ schema ∈ schemaText (kvGet db.store (schemaKey database tableName)),
          StepsFit (insertRow s.1 name schema) (DrawsFresh s.1 name schema) (db, 0) rows
  | _ => True

/-! ## When it keeps the promise -/

/-- AUTO finds the counter below the largest `int` and room for what it stores, and an explicit
number is an `int`. -/
def RowCounts (ctx : SessionContext) (tableName : CStr) (schema : Option CStr)
    (state : Db n × Nat) (vals : List CStr) : Prop :=
  ∀ id ∈ vals[pkIndex schema]?,
    if id = CStr.lit "AUTO" then
      counterOf state.1 (counterKey ctx.currentDb tableName) 0 ≠ some (2 ^ 31 - 1) ∧
        (toList state.1.store.entries).length +
          (if (kvGet state.1.store (counterKey ctx.currentDb tableName)).isSome then 1 else 2) ≤ n
    else isNumeric id = true → CStr.digitsValue id.val < 2 ^ 31

instance instDecidableRowCounts (ctx : SessionContext) (tableName : CStr) (schema : Option CStr)
    (state : Db n × Nat) (vals : List CStr) :
    Decidable (RowCounts ctx tableName schema state vals) :=
  inferInstanceAs (Decidable (∀ id ∈ vals[pkIndex schema]?, _))

/-- A DROP deletes the counter of the table, or empties a slot on the way to it. -/
def DropLosesCounter (t : Table CStr Value n) (database tableName database' name : CStr) : Prop :=
  (database' = database ∧ name = tableName) ∨
    onTheWay t (schemaKey database' name) (counterKey database tableName) = true ∨
    onTheWay (erase CStr.slot t (schemaKey database' name)) (counterKey database' name)
      (counterKey database tableName) = true

instance instDecidableDropLosesCounter (t : Table CStr Value n)
    (database tableName database' name : CStr) :
    Decidable (DropLosesCounter t database tableName database' name) :=
  inferInstanceAs (Decidable (_ ∨ _ ∨ _))

/-- A statement that sets the counter back leaves no row that the numbers from one on run into, and
the rows of an INSERT can be counted. -/
def CounterFits (database tableName : CStr) (db : Db n) (s : SessionContext × ASTNode) : Prop :=
  match s.2 with
  | .createTable name _ =>
      s.1.currentDb = database ∧ name = tableName →
        kvGet db.store (schemaKey database tableName) = none →
          NextIsFree db.store.entries database tableName 0
  | .dropTable name =>
      (kvGet db.store (schemaKey s.1.currentDb name)).isSome = true →
        DropLosesCounter db.store.entries database tableName s.1.currentDb name →
          NextIsFree db.store.entries database tableName 0
  | .delete name whereClause =>
      ∀ target ∈ deleteTarget whereClause, ∀ id ∈ target,
        onTheWay db.store.entries (rowKey s.1.currentDb name id) (counterKey database tableName) =
            true →
          NextIsFree (erase CStr.slot db.store.entries (rowKey s.1.currentDb name id)) database
            tableName 0
  | .insert name rows =>
      s.1.currentDb = database ∧ name = tableName →
        ∀ schema ∈ schemaText (kvGet db.store (schemaKey database tableName)),
          StepsFit (insertRow s.1 name schema) (RowCounts s.1 name schema) (db, 0) rows
  | _ => True

instance instDecidableCounterFits (database tableName : CStr) (db : Db n) :
    (s : SessionContext × ASTNode) → Decidable (CounterFits database tableName db s)
  | (_, .createTable _ _) =>
      inferInstanceAs (Decidable (_ → _))
  | (_, .dropTable _) =>
      inferInstanceAs (Decidable (_ → _))
  | (_, .delete _ whereClause) =>
      inferInstanceAs (Decidable (∀ target ∈ deleteTarget whereClause, _))
  | (_, .insert _ _) =>
      inferInstanceAs (Decidable (_ → _))
  | (_, .update _ _ _) | (_, .docInsert _ _) | (_, .docRemove _ _) | (_, .checkpoint)
  | (_, .createIndex _ _) | (_, .createUser _ _) | (_, .createDb _) | (_, .useDb _)
  | (_, .dropDb _) | (_, .begin) | (_, .commit) | (_, .rollback) | (_, .rollbackTo _)
  | (_, .savepoint _) | (_, .releaseSavepoint _) | (_, .foreign _ _) => isTrue trivial

/-! ## The ids in the slots -/

section Ids

variable {database tableName key id : CStr} {t : Table CStr Value n} {val : Value} {c c' : Int}

theorem rowId_eq_some_iff : rowId database tableName key = some id ↔
    key = rowKey database tableName id := by
  have hdrop : ∀ pk, CStr.ofBytes ((rowKey database tableName pk).val.drop
      (rowPrefix database tableName).length) = pk := by
    intro pk
    have hval : (rowKey database tableName pk).val = (rowPrefix database tableName).val ++ pk.val :=
      rfl
    rw [hval, CStr.length, List.drop_left, CStr.ofBytes_val]
  unfold rowId
  constructor
  · intro hid
    split at hid
    · next hstarts =>
        obtain ⟨pk, rfl⟩ := startsWith_rowPrefix_iff.mp hstarts
        rw [hdrop] at hid
        cases hid
        rfl
    · cases hid
  · rintro rfl
    rw [if_pos (startsWith_rowPrefix_iff.mpr ⟨id, rfl⟩), hdrop]

omit [NeZero n] in
theorem mem_numericIds : id ∈ numericIds t database tableName ↔
    isNumeric id = true ∧ Holds t (rowKey database tableName id) := by
  unfold numericIds
  rw [List.mem_filter, List.mem_filterMap, and_comm]
  refine and_congr_right fun _ => ?_
  constructor
  · rintro ⟨e, hmem, hid⟩
    obtain ⟨i, hi⟩ := mem_toList.mp hmem
    exact ⟨i, by rw [hi, ← rowId_eq_some_iff.mp hid]; rfl⟩
  · rintro ⟨i, hi⟩
    obtain ⟨e, hentry, hkey⟩ := Option.map_eq_some_iff.mp hi
    exact ⟨e, mem_toList.mpr ⟨i, hentry⟩, rowId_eq_some_iff.mpr hkey⟩

theorem mem_numericIds_erase (hid : id ∈ numericIds (erase CStr.slot t key) database tableName) :
    id ∈ numericIds t database tableName := by
  obtain ⟨hnumeric, hholds⟩ := mem_numericIds.mp hid
  exact mem_numericIds.mpr ⟨hnumeric, holds_of_erase hholds⟩

theorem mem_numericIds_insert
    (hid : id ∈ numericIds (insert CStr.slot t key val) database tableName) :
    id ∈ numericIds t database tableName ∨
      (isNumeric id = true ∧ key = rowKey database tableName id) := by
  obtain ⟨hnumeric, hholds⟩ := mem_numericIds.mp hid
  rcases holds_of_insert hholds with hold | heq
  · exact .inl (mem_numericIds.mpr ⟨hnumeric, hold⟩)
  · exact .inr ⟨hnumeric, heq.symm⟩

theorem digitsValue_ofInt (hc : 0 ≤ c) : CStr.digitsValue (CStr.ofInt c).val = c := by
  obtain ⟨k, rfl⟩ := Int.eq_ofNat_of_zero_le hc
  rw [CStr.val_ofInt_natCast, CStr.digitsValue_decimal]

theorem isNumeric_ofInt (hc : 0 ≤ c) : isNumeric (CStr.ofInt c) = true := by
  obtain ⟨k, rfl⟩ := Int.eq_ofNat_of_zero_le hc
  rw [isNumeric, CStr.val_ofInt_natCast]
  exact List.all_eq_true.mpr fun b hb => CStr.isDigit_of_mem_decimal hb

omit [NeZero n] in
/-- A larger counter is as good. -/
theorem NextIsFree.mono (hfree : NextIsFree t database tableName c) (hc : 0 ≤ c) (hle : c ≤ c') :
    NextIsFree t database tableName c' := by
  intro id hid
  obtain ⟨hvalue, hne⟩ := hfree id hid
  refine ⟨by omega, ?_⟩
  rintro rfl
  rw [digitsValue_ofInt (by omega)] at hvalue
  -- the number behind `c'` is not beyond the one behind `c`, so the counters are the same
  have heq : c' = c := by omega
  exact hne (by rw [heq])

theorem NextIsFree.erase (hfree : NextIsFree t database tableName c) (key : CStr) :
    NextIsFree (erase CStr.slot t key) database tableName c :=
  fun id hid => hfree id (mem_numericIds_erase hid)

theorem NextIsFree.insert (hfree : NextIsFree t database tableName c)
    (hkey : ∀ id, key ≠ rowKey database tableName id) (val : Value) :
    NextIsFree (insert CStr.slot t key val) database tableName c := by
  intro id hid
  rcases mem_numericIds_insert hid with hold | ⟨_, heq⟩
  · exact hfree id hold
  · exact absurd heq (hkey id)

end Ids

/-! ## The counter in the slots -/

/-- What the executor reads as the last number of the table. -/
def lastId (t : Table CStr Value n) (database tableName : CStr) : Option Int :=
  match lookup CStr.slot t (counterKey database tableName) with
  | some v => CStr.readInt v.data
  | none => some 0

/-- Every counter stored for the table, found or not, is a number. -/
def Readable (t : Table CStr Value n) (database tableName : CStr) : Prop :=
  ∀ i v, t i = some (counterKey database tableName, v) →
    ∃ c : Int, 0 ≤ c ∧ c < 2 ^ 31 ∧ v.data = CStr.intBytes c

/-- The number behind the last one the executor can read is free. -/
structure Counted (t : Table CStr Value n) (database tableName : CStr) : Prop where
  readable : Readable t database tableName
  next : ∀ c, lastId t database tableName = some c → NextIsFree t database tableName c

section Counter

variable {database tableName key : CStr} {t : Table CStr Value n} {val : Value} {c c' : Int}

theorem counterOf_eq (db : Db n) (database tableName : CStr) :
    counterOf db (counterKey database tableName) 0 =
      lastId db.store.entries database tableName := rfl

theorem lastId_eq_some (hreadable : Readable t database tableName) :
    ∃ c, lastId t database tableName = some c ∧ 0 ≤ c ∧ c < 2 ^ 31 := by
  unfold lastId
  cases hl : lookup CStr.slot t (counterKey database tableName) with
  | none => exact ⟨0, rfl, Int.le_refl 0, by decide⟩
  | some v =>
      obtain ⟨i, _, hi⟩ := lookup_eq_some_iff_hit.mp hl
      obtain ⟨c, hlow, hhigh, hdata⟩ := hreadable i v hi
      refine ⟨c, ?_, hlow, hhigh⟩
      dsimp only
      rw [hdata, CStr.readInt_intBytes (by omega) hhigh]

/-- Where the numbers may start again from one, any counter will do. -/
theorem counted_of_nextIsFree (hreadable : Readable t database tableName)
    (hfree : NextIsFree t database tableName 0) : Counted t database tableName where
  readable := hreadable
  next c hlast := by
    obtain ⟨c', hlast', hlow, _⟩ := lastId_eq_some hreadable
    cases hlast.symm.trans hlast'
    exact hfree.mono (Int.le_refl 0) hlow

/-- A put of another key hides no counter. -/
theorem lastId_insertOther {v : Value}
    (hl : lookup CStr.slot t (counterKey database tableName) = some v)
    (hne : key ≠ counterKey database tableName) (val : Value) :
    lastId (insert CStr.slot t key val) database tableName = lastId t database tableName := by
  rw [lastId, lastId, lookup_insert_of_some hne.symm hl, hl]

/-- A put of another key leaves the counter, or lets an older one be found where there was none. -/
theorem Counted.insertOther (hcounted : Counted t database tableName)
    (hne : key ≠ counterKey database tableName)
    (hid : ∀ id c, key = rowKey database tableName id → isNumeric id = true →
      lastId t database tableName = some c → 0 ≤ c →
        CStr.digitsValue id.val ≤ c + 1 ∧ id ≠ CStr.ofInt (c + 1)) (val : Value) :
    Counted (insert CStr.slot t key val) database tableName := by
  have hreadable : Readable (OpenAddressing.insert CStr.slot t key val) database tableName := by
    intro i v hentry
    rcases insert_slot hentry with hold | heq
    · exact hcounted.readable i v hold
    · exact absurd (Prod.mk.inj heq).1.symm hne
  refine ⟨hreadable, fun c' hlast' => ?_⟩
  obtain ⟨c, hlast, hlow, _⟩ := lastId_eq_some hcounted.readable
  obtain ⟨d, hlastd, hlowd, _⟩ := lastId_eq_some hreadable
  cases hlast'.symm.trans hlastd
  have hle : c ≤ c' := by
    cases hl : lookup CStr.slot t (counterKey database tableName) with
    | none =>
        have hzero : lastId t database tableName = some 0 := by rw [lastId, hl]
        cases hlast.symm.trans hzero
        exact hlowd
    | some v =>
        rw [lastId_insertOther hl hne, hlast] at hlast'
        cases hlast'
        exact Int.le_refl _
  have hboth : NextIsFree (insert CStr.slot t key val) database tableName c := by
    intro id hmem
    rcases mem_numericIds_insert hmem with hold | ⟨hnumeric, heq⟩
    · exact hcounted.next c hlast id hold
    · exact hid id c heq hnumeric hlast hlow
  exact hboth.mono hlow hle

theorem lastId_insertCounter (hroom : probe CStr.slot t (counterKey database tableName) ≠ .full)
    (hlow : 0 ≤ c) (hhigh : c < 2 ^ 31) {type : ValueType} :
    lastId (insert CStr.slot t (counterKey database tableName)
      { data := CStr.intBytes c, type := type }) database tableName = some c := by
  rw [lastId, lookup_insert_self hroom]
  exact CStr.readInt_intBytes (by omega) hhigh

/-- The counter is set, or there is no room for it. -/
theorem Counted.insertCounter (hcounted : Counted t database tableName)
    (hd : Sql.isWord database = true) (hfree : NextIsFree t database tableName c) (hlow : 0 ≤ c)
    (hhigh : c < 2 ^ 31) (type : ValueType) :
    Counted (insert CStr.slot t (counterKey database tableName)
      { data := CStr.intBytes c, type := type }) database tableName := by
  refine ⟨fun i v hentry => ?_, fun c' hlast => ?_⟩
  · rcases insert_slot hentry with hold | heq
    · exact hcounted.readable i v hold
    · cases (Prod.mk.inj heq).2
      exact ⟨c, hlow, hhigh, rfl⟩
  · by_cases hfull : probe CStr.slot t (counterKey database tableName) = .full
    · rw [insert_of_full hfull] at hlast ⊢
      exact hcounted.next c' hlast
    · rw [lastId_insertCounter hfull hlow hhigh] at hlast
      cases hlast
      exact hfree.insert (fun id heq => rowKey_ne_counterKey hd hd heq.symm) _

theorem Readable.erase (hreadable : Readable t database tableName) (key : CStr) :
    Readable (erase CStr.slot t key) database tableName :=
  fun i v hentry => hreadable i v (erase_slot hentry)

/-- A delete of another key leaves the counter in sight, or the numbers may start again. -/
theorem Counted.erase (hcounted : Counted t database tableName)
    (hne : key ≠ counterKey database tableName)
    (hfree : onTheWay t key (counterKey database tableName) = true →
      NextIsFree (erase CStr.slot t key) database tableName 0) :
    Counted (erase CStr.slot t key) database tableName := by
  by_cases hway : onTheWay t key (counterKey database tableName) = true
  · exact counted_of_nextIsFree (hcounted.readable.erase key) (hfree hway)
  refine ⟨hcounted.readable.erase key, fun c hlast => ?_⟩
  have hsame : lookup CStr.slot (OpenAddressing.erase CStr.slot t key)
      (counterKey database tableName) = lookup CStr.slot t (counterKey database tableName) := by
    cases hp : probe CStr.slot t key with
    | hit j =>
        refine (lookup_erase_eq_iff hne.symm hp).mpr fun i hhit hbefore => hway ?_
        unfold onTheWay
        rw [hp, hhit]
        exact decide_eq_true hbefore
    | free j => simp [OpenAddressing.erase, hp]
    | full => simp [OpenAddressing.erase, hp]
  rw [lastId, hsame] at hlast
  exact (hcounted.next c hlast).erase key

end Counter

/-! ## One row -/

section Rows

variable {ctx : SessionContext} {database tableName : CStr} {schema : Option CStr} {db moved : Db n}
  {state state' : Db n × Nat} {vals : List CStr} {id finalId : CStr} {c : Int}

/-- AUTO sets the counter to the next number and draws it. -/
theorem resolveId_auto
    (hid : resolveId db ctx tableName (CStr.lit "AUTO") = some (finalId, moved))
    (hlast : lastId db.store.entries ctx.currentDb tableName = some c) :
    nextInt c = some (c + 1) ∧ finalId = CStr.ofInt (c + 1) ∧
      moved.store.entries = insert CStr.slot db.store.entries (counterKey ctx.currentDb tableName)
        { data := CStr.intBytes (c + 1), type := .row } := by
  unfold resolveId at hid
  rw [if_pos rfl] at hid
  obtain ⟨seqKey, hseq, hid⟩ := Option.bind_eq_some_iff.mp hid
  cases sysGenerateKeySeq_eq_some hseq
  rw [counterOf_eq, hlast] at hid
  obtain ⟨_, ⟨⟩, hid⟩ := Option.bind_eq_some_iff.mp hid
  obtain ⟨seq, hnext, hid⟩ := Option.bind_eq_some_iff.mp hid
  have hsum : seq = c + 1 := by
    unfold nextInt at hnext
    split at hnext
    · exact (Option.some_inj.mp hnext).symm
    · cases hnext
  subst hsum
  cases hid
  exact ⟨hnext, rfl, entries_kvPut db.store _ _⟩

/-- An explicit id is kept, and a number beyond the counter moves it. -/
theorem resolveId_explicit (hauto : id ≠ CStr.lit "AUTO")
    (hid : resolveId db ctx tableName id = some (finalId, moved))
    (hlast : lastId db.store.entries ctx.currentDb tableName = some c) :
    finalId = id ∧
      (moved.store.entries = db.store.entries ∧ (isNumeric id = true → CStr.atoi id ≤ c) ∨
        isNumeric id = true ∧ c < CStr.atoi id ∧
          moved.store.entries = insert CStr.slot db.store.entries
            (counterKey ctx.currentDb tableName)
            { data := CStr.intBytes (CStr.atoi id), type := .row }) := by
  unfold resolveId at hid
  rw [if_neg hauto] at hid
  obtain ⟨final, hfinal, hrest⟩ := Option.bind_eq_some_iff.mp hid
  obtain ⟨rfl, _⟩ := CStr.sprintf_eq_some hfinal
  by_cases hnumeric : isNumeric final = true
  · rw [if_pos hnumeric] at hrest
    obtain ⟨seqKey, hseq, hrest⟩ := Option.bind_eq_some_iff.mp hrest
    cases sysGenerateKeySeq_eq_some hseq
    rw [counterOf_eq, hlast] at hrest
    obtain ⟨_, ⟨⟩, hrest⟩ := Option.bind_eq_some_iff.mp hrest
    by_cases hgt : CStr.atoi final > c
    · rw [if_pos hgt] at hrest
      cases hrest
      exact ⟨rfl, .inr ⟨hnumeric, hgt, entries_kvPut db.store _ _⟩⟩
    · rw [if_neg hgt] at hrest
      cases hrest
      exact ⟨rfl, .inl ⟨rfl, fun _ => Int.not_lt.mp hgt⟩⟩
  · rw [if_neg hnumeric] at hrest
    cases hrest
    exact ⟨rfl, .inl ⟨rfl, fun hyes => absurd hyes hnumeric⟩⟩

omit [NeZero n] in
/-- `atoi` reads a number that is an `int`. -/
theorem atoi_of_isNumeric (hnumeric : isNumeric id = true)
    (hlt : CStr.digitsValue id.val < 2 ^ 31) : CStr.atoi id = CStr.digitsValue id.val :=
  CStr.atoi_of_digits (List.all_eq_true.mp hnumeric) hlt

/-- Resolving the id of a row keeps the counter in order, whether there is room for it or not. -/
theorem Counted.resolveId (hcounted : Counted db.store.entries ctx.currentDb tableName)
    (hd : Sql.isWord ctx.currentDb = true)
    (hint : id ≠ CStr.lit "AUTO" → isNumeric id = true → CStr.digitsValue id.val < 2 ^ 31)
    (hid : Executor.resolveId db ctx tableName id = some (finalId, moved)) :
    Counted moved.store.entries ctx.currentDb tableName := by
  obtain ⟨c, hlast, hlow, _⟩ := lastId_eq_some hcounted.readable
  have hfree := hcounted.next c hlast
  by_cases hauto : id = CStr.lit "AUTO"
  · subst hauto
    obtain ⟨hnext, _, hentries⟩ := resolveId_auto hid hlast
    have hhigh : c + 1 < 2 ^ 31 := by
      unfold nextInt at hnext
      split at hnext
      · assumption
      · cases hnext
    rw [hentries]
    exact hcounted.insertCounter hd (hfree.mono hlow (by omega)) (by omega) hhigh .row
  · obtain ⟨_, ⟨hentries, _⟩ | ⟨hnumeric, hgt, hentries⟩⟩ := resolveId_explicit hauto hid hlast
    · rw [hentries]
      exact hcounted
    · have hvalue := atoi_of_isNumeric hnumeric (hint hauto hnumeric)
      have hhigh := hint hauto hnumeric
      rw [hentries]
      exact hcounted.insertCounter hd (hfree.mono hlow (by omega)) (by omega) (by omega) .row

/-- Where a row with an explicit id finds room, the counter is no smaller than its id. -/
theorem digitsValue_le_lastId (hcounted : Counted db.store.entries ctx.currentDb tableName)
    (hauto : id ≠ CStr.lit "AUTO") (hnumeric : isNumeric id = true)
    (hlt : CStr.digitsValue id.val < 2 ^ 31)
    (hid : Executor.resolveId db ctx tableName id = some (finalId, moved))
    (hget : lookup CStr.slot moved.store.entries (rowKey ctx.currentDb tableName id) = none)
    (hroom : probe CStr.slot moved.store.entries (rowKey ctx.currentDb tableName id) ≠ .full)
    (hlast : lastId moved.store.entries ctx.currentDb tableName = some c) :
    CStr.digitsValue id.val ≤ c := by
  obtain ⟨c₀, hlast₀, hlow, _⟩ := lastId_eq_some hcounted.readable
  have hvalue := atoi_of_isNumeric hnumeric hlt
  obtain ⟨_, ⟨hentries, hle⟩ | ⟨_, hgt, hentries⟩⟩ := resolveId_explicit hauto hid hlast₀
  · rw [hentries, hlast₀] at hlast
    cases hlast
    rw [← hvalue]
    exact hle hnumeric
  · by_cases hfull : probe CStr.slot db.store.entries (counterKey ctx.currentDb tableName) = .full
    · rw [hentries, insert_of_full hfull] at hget hroom
      exact absurd (probe_full_of_lookup_none hfull hget) hroom
    · rw [hentries, lastId_insertCounter hfull (by omega) (by omega)] at hlast
      cases hlast
      exact Int.le_of_eq hvalue.symm

theorem room_for_counter
    (hroom : (toList db.store.entries).length +
      (if (kvGet db.store (counterKey ctx.currentDb tableName)).isSome then 1 else 2) ≤ n) :
    probe CStr.slot db.store.entries (counterKey ctx.currentDb tableName) ≠ .full := by
  refine probe_ne_full_of_length_lt ?_
  split at hroom <;> omega

/-- Behind the counter there is room for the row. -/
theorem room_for_row {key : CStr} {val : Value}
    (hroom : (toList db.store.entries).length +
      (if (kvGet db.store (counterKey ctx.currentDb tableName)).isSome then 1 else 2) ≤ n) :
    probe CStr.slot (insert CStr.slot db.store.entries (counterKey ctx.currentDb tableName) val)
      key ≠ .full := by
  refine probe_ne_full_of_length_lt ?_
  split at hroom
  · next hfound =>
      obtain ⟨v, hl⟩ := Option.isSome_iff_exists.mp hfound
      rw [length_toList_insert_of_some hl]
      omega
  · have hle := length_toList_insert_le CStr.slot db.store.entries
      (counterKey ctx.currentDb tableName) val
    omega

theorem below_limit (hlast : lastId db.store.entries ctx.currentDb tableName = some c)
    (hhigh : c < 2 ^ 31)
    (hlimit : counterOf db (counterKey ctx.currentDb tableName) 0 ≠ some (2 ^ 31 - 1)) :
    c + 1 < 2 ^ 31 := by
  have hne : c ≠ 2 ^ 31 - 1 := by
    rintro rfl
    exact hlimit hlast
  omega

/-- One row of an INSERT into the table keeps the counter in order. -/
theorem Counted.insertRow (hcounted : Counted state.1.store.entries ctx.currentDb tableName)
    (hd : Sql.isWord ctx.currentDb = true) (ht : Sql.isWord tableName = true)
    (hfits : RowCounts ctx tableName schema state vals)
    (hexec : Executor.insertRow ctx tableName schema state vals = some state') :
    Counted state'.1.store.entries ctx.currentDb tableName := by
  cases insertRow_cases hexec with
  | missing _ hstore _ =>
      rw [hstore]
      exact hcounted
  | duplicate id finalId moved old hpk hid _ hstore _ =>
      have hrow := hfits id hpk
      rw [hstore]
      refine hcounted.resolveId hd (fun hauto => ?_) hid
      rwa [if_neg hauto] at hrow
  | stored id finalId moved data hpk hid hget _ hentries _ =>
      have hrow := hfits id hpk
      have hmoved := hcounted.resolveId hd (fun hauto => by rwa [if_neg hauto] at hrow) hid
      rw [hentries]
      by_cases hroom : probe CStr.slot moved.store.entries
          (rowKey ctx.currentDb tableName finalId) = .full
      · rw [insert_of_full hroom]
        exact hmoved
      refine hmoved.insertOther (rowKey_ne_counterKey hd hd) ?_ _
      intro id' c hkey hnumeric hlast hlow
      obtain ⟨_, _, rfl⟩ := rowKey_inj hd hd ht ht hkey
      by_cases hauto : id = CStr.lit "AUTO"
      · subst hauto
        rw [if_pos rfl] at hrow
        obtain ⟨c₀, hlast₀, hlow₀, hhigh₀⟩ := lastId_eq_some hcounted.readable
        obtain ⟨_, rfl, hcounter⟩ := resolveId_auto hid hlast₀
        have hbelow := below_limit hlast₀ hhigh₀ hrow.1
        rw [hcounter, lastId_insertCounter (room_for_counter hrow.2) (by omega) hbelow] at hlast
        cases hlast
        rw [digitsValue_ofInt (by omega)]
        refine ⟨by omega, fun heq => ?_⟩
        have hvalue := congrArg (fun id : CStr => CStr.digitsValue id.val) heq
        rw [digitsValue_ofInt (by omega), digitsValue_ofInt (by omega)] at hvalue
        omega
      · rw [if_neg hauto] at hrow
        obtain ⟨c₀, hlast₀, _⟩ := lastId_eq_some hcounted.readable
        obtain ⟨rfl, _⟩ := resolveId_explicit hauto hid hlast₀
        have hle := digitsValue_le_lastId hcounted hauto hnumeric (hrow hnumeric) hid hget hroom
          hlast
        refine ⟨by omega, ?_⟩
        rintro rfl
        rw [digitsValue_ofInt (by omega)] at hle
        omega

/-- A row of an INSERT into another table leaves the counter of this one as it is, or an older one
comes to light. -/
theorem Counted.insertRowElsewhere (hcounted : Counted state.1.store.entries database tableName)
    {name : CStr} (hd : Sql.isWord database = true) (ht : Sql.isWord tableName = true)
    (hd' : Sql.isWord ctx.currentDb = true) (ht' : Sql.isWord name = true)
    (hother : ¬ (ctx.currentDb = database ∧ name = tableName))
    (hexec : Executor.insertRow ctx name schema state vals = some state') :
    Counted state'.1.store.entries database tableName := by
  have hresolved : ∀ {id finalId moved},
      Executor.resolveId state.1 ctx name id = some (finalId, moved) →
        Counted moved.store.entries database tableName := by
    intro id finalId moved hid
    rcases entries_resolveId hid with hentries | ⟨val, hentries⟩
    · rw [hentries]
      exact hcounted
    · rw [hentries]
      exact hcounted.insertOther (fun heq => hother (counterKey_inj hd' hd heq))
        (fun _ _ heq => absurd heq.symm (rowKey_ne_counterKey hd hd')) val
  cases insertRow_cases hexec with
  | missing _ hstore _ =>
      rw [hstore]
      exact hcounted
  | duplicate id finalId moved old _ hid _ hstore _ =>
      rw [hstore]
      exact hresolved hid
  | stored id finalId moved data _ hid _ _ hentries _ =>
      rw [hentries]
      refine (hresolved hid).insertOther (rowKey_ne_counterKey hd' hd) (fun id' c heq => ?_) _
      obtain ⟨hdatabase, htable, _⟩ := rowKey_inj hd' hd ht' ht heq
      exact absurd ⟨hdatabase, htable⟩ hother

/-- Where the counter is in order, a row that fits keeps the promise of AUTO. -/
theorem Counted.drawsFresh (hcounted : Counted state.1.store.entries ctx.currentDb tableName)
    (hd : Sql.isWord ctx.currentDb = true) (ht : Sql.isWord tableName = true)
    (hfits : RowCounts ctx tableName schema state vals) :
    DrawsFresh ctx tableName schema state vals := by
  intro hauto
  have hrow := hfits _ hauto
  rw [if_pos rfl] at hrow
  obtain ⟨hlimit, hroom⟩ := hrow
  obtain ⟨c, hlast, hlow, hhigh⟩ := lastId_eq_some hcounted.readable
  have hbelow := below_limit hlast hhigh hlimit
  have hfree := hcounted.next c hlast
  have hfresh : ¬ Holds state.1.store.entries
      (rowKey ctx.currentDb tableName (CStr.ofInt (c + 1))) := fun hholds =>
    (hfree _ (mem_numericIds.mpr ⟨isNumeric_ofInt (by omega), hholds⟩)).2 rfl
  refine ⟨c + 1, ?_, hfresh, fun after hafter => ?_⟩
  · rw [counterOf_eq, hlast]
    exact if_pos hbelow
  cases insertRow_cases hafter with
  | missing hpk _ _ =>
      rw [hauto] at hpk
      cases hpk
  | duplicate id finalId moved old hpk hid hget _ _ =>
      -- a duplicate is a row under the number that no row had
      cases Option.some_inj.mp (hauto.symm.trans hpk)
      obtain ⟨_, rfl, hentries⟩ := resolveId_auto hid hlast
      have hheld := holds_of_lookup hget
      rw [hentries] at hheld
      rcases holds_of_insert hheld with hold | heq
      · exact absurd hold hfresh
      · exact absurd heq (rowKey_ne_counterKey hd hd)
  | stored id finalId moved data hpk hid _ hdata hentries _ =>
      cases Option.some_inj.mp (hauto.symm.trans hpk)
      obtain ⟨_, rfl, hmoved⟩ := resolveId_auto hid hlast
      rw [hmoved] at hentries
      refine ⟨⟨data, hdata, ?_⟩, c + 1, ?_, fun id' hid' => ?_⟩
      · rw [kvGet, hentries]
        exact lookup_insert_self (room_for_row hroom)
      · have hroomy := room_for_counter hroom
        rw [counterOf_eq, hentries, lastId_insertOther (lookup_insert_self hroomy)
          (rowKey_ne_counterKey hd hd), lastId_insertCounter hroomy (by omega) hbelow]
      · rw [hentries] at hid'
        rcases mem_numericIds_insert hid' with hold | ⟨_, heq⟩
        · rcases mem_numericIds_insert hold with hold | ⟨_, heq⟩
          · exact (hfree id' hold).1
          · exact absurd heq.symm (rowKey_ne_counterKey hd hd)
        · obtain ⟨_, _, rfl⟩ := rowKey_inj hd hd ht ht heq
          exact Int.le_of_eq (digitsValue_ofInt (by omega))

end Rows

/-! ## One statement -/

section Statements

variable {ctx : SessionContext} {database tableName name : CStr} {db db' : Db n}

theorem insertRows_eq_foldlM {schema : Option CStr} (state : Db n × Nat)
    (rows : List (List CStr)) :
    insertRows ctx name schema state rows = rows.foldlM (insertRow ctx name schema) state := by
  induction rows generalizing state with
  | nil => rfl
  | cons vals rows ih =>
      rw [List.foldlM_cons]
      exact congrArg _ (funext ih)

theorem Counted.insert (hcounted : Counted db.store.entries database tableName)
    {rows : List (List CStr)} (hd : Sql.isWord database = true) (ht : Sql.isWord tableName = true)
    (hd' : Sql.isWord ctx.currentDb = true) (ht' : Sql.isWord name = true)
    (hfits : CounterFits database tableName db (ctx, .insert name rows))
    (hexec : executeInsert db ctx name rows = some db') :
    Counted db'.store.entries database tableName := by
  unfold executeInsert at hexec
  by_cases hrows : rows = []
  · rw [if_pos hrows] at hexec
    cases hexec
    exact hcounted
  rw [if_neg hrows] at hexec
  obtain ⟨metaKey, hkey, hexec⟩ := Option.bind_eq_some_iff.mp hexec
  cases sysGenerateKeySchema_eq_some hkey
  obtain ⟨schema, hschema, hexec⟩ := Option.bind_eq_some_iff.mp hexec
  obtain ⟨⟨db₁, count⟩, hins, hexec⟩ := Option.bind_eq_some_iff.mp hexec
  cases hexec
  rw [insertRows_eq_foldlM] at hins
  by_cases hours : ctx.currentDb = database ∧ name = tableName
  · obtain ⟨rfl, rfl⟩ := hours
    exact foldlM_of_stepsFit (P := fun state : Db n × Nat =>
        Counted state.1.store.entries ctx.currentDb name)
      (fun state vals after hstate hrow hafter => hstate.insertRow hd ht hrow hafter) hcounted
      (hfits ⟨rfl, rfl⟩ schema hschema) hins
  · exact foldlM_of_invariant (P := fun state : Db n × Nat =>
        Counted state.1.store.entries database tableName)
      (fun state vals after hstate hafter =>
        hstate.insertRowElsewhere hd ht hd' ht' hours hafter) hcounted hins

theorem Counted.createTable (hcounted : Counted db.store.entries database tableName)
    {columns : List ColumnDef} (hd : Sql.isWord database = true)
    (hd' : Sql.isWord ctx.currentDb = true)
    (hfits : CounterFits database tableName db (ctx, .createTable name columns))
    (hexec : executeCreateTable db ctx name columns = some db') :
    Counted db'.store.entries database tableName := by
  rcases entries_createTable hexec with hsame | ⟨schema, _, hnone, hentries⟩
  · rw [hsame]
    exact hcounted
  rw [hentries]
  have hne : schemaKey ctx.currentDb name ≠ counterKey database tableName := fun heq =>
    counterKey_ne_schemaKey hd hd' heq.symm
  have hschema := hcounted.insertOther hne
    (fun _ _ heq => absurd heq.symm (rowKey_ne_schemaKey hd hd'))
    { data := schema.val ++ [0], type := .schema }
  by_cases hours : ctx.currentDb = database ∧ name = tableName
  · have hfree := hfits hours (by rw [← hours.1, ← hours.2]; exact hnone)
    rw [hours.1, hours.2] at hschema ⊢
    refine hschema.insertCounter hd ?_ (Int.le_refl 0) (by decide) .row
    exact hfree.insert (fun id heq => rowKey_ne_schemaKey hd hd heq.symm) _
  · exact hschema.insertOther (fun heq => hours (counterKey_inj hd' hd heq))
      (fun _ _ heq => absurd heq.symm (rowKey_ne_counterKey hd hd')) _

theorem Counted.dropTable (hcounted : Counted db.store.entries database tableName)
    (hd : Sql.isWord database = true) (hd' : Sql.isWord ctx.currentDb = true)
    (hfits : CounterFits database tableName db (ctx, .dropTable name))
    (hexec : executeDropTable db ctx name = some db') :
    Counted db'.store.entries database tableName := by
  rcases entries_dropTable hexec with ⟨_, hsame⟩ | ⟨hfound, hentries⟩
  · rw [hsame]
    exact hcounted
  rw [hentries]
  by_cases hloses : DropLosesCounter db.store.entries database tableName ctx.currentDb name
  · exact counted_of_nextIsFree ((hcounted.readable.erase _).erase _)
      (((hfits hfound hloses).erase _).erase _)
  · obtain ⟨hours, hkept⟩ := not_or.mp hloses
    obtain ⟨hschema, hcounter⟩ := not_or.mp hkept
    have herased := hcounted.erase (fun heq => counterKey_ne_schemaKey hd hd' heq.symm)
      fun hway => absurd hway hschema
    exact herased.erase (fun heq => hours (counterKey_inj hd' hd heq))
      fun hway => absurd hway hcounter

theorem Counted.delete (hcounted : Counted db.store.entries database tableName)
    {whereClause : Option ASTExpr} (hd : Sql.isWord database = true)
    (hd' : Sql.isWord ctx.currentDb = true)
    (hfits : CounterFits database tableName db (ctx, .delete name whereClause))
    (hexec : executeDelete db ctx name whereClause = some db') :
    Counted db'.store.entries database tableName := by
  rcases delete_cases hexec with ⟨_, _, hstore⟩ | ⟨id, key, htarget, hkey, hstore, _⟩
  · rw [hstore]
    exact hcounted
  · cases sysGenerateKeyTable_eq_some hkey
    rw [hstore, entries_kvDelete]
    exact hcounted.erase (rowKey_ne_counterKey hd' hd) (hfits (some id) htarget id rfl)

theorem Counted.step (hcounted : Counted db.store.entries database tableName)
    {s : SessionContext × ASTNode} (hd : Sql.isWord database = true)
    (ht : Sql.isWord tableName = true) (hctx : Sql.isWord s.1.currentDb = true)
    (hstmt : isHistoryStatement s.2 = true) (hfits : CounterFits database tableName db s)
    (hstep : statementStep db s = some db') : Counted db'.store.entries database tableName := by
  obtain ⟨⟨after, ctx'⟩, hexec, rfl⟩ := Option.map_eq_some_iff.mp hstep
  obtain ⟨ctx, stmt⟩ := s
  cases stmt with
  | insert name rows =>
      obtain ⟨_, hdone, heq⟩ := Option.map_eq_some_iff.mp hexec
      cases heq
      exact hcounted.insert hd ht hctx hstmt hfits hdone
  | createTable name columns =>
      obtain ⟨_, hdone, heq⟩ := Option.map_eq_some_iff.mp hexec
      cases heq
      exact hcounted.createTable hd hctx hfits hdone
  | dropTable name =>
      obtain ⟨_, hdone, heq⟩ := Option.map_eq_some_iff.mp hexec
      cases heq
      exact hcounted.dropTable hd hctx hfits hdone
  | delete name whereClause =>
      obtain ⟨_, hdone, heq⟩ := Option.map_eq_some_iff.mp hexec
      cases heq
      exact hcounted.delete hd hctx hfits hdone
  | _ => cases hstmt

/-- An INSERT whose rows fit draws a fresh number for every AUTO. -/
theorem Counted.autoFresh (hcounted : Counted db.store.entries database tableName)
    {s : SessionContext × ASTNode} (hd : Sql.isWord database = true)
    (ht : Sql.isWord tableName = true) (hfits : CounterFits database tableName db s) :
    AutoFresh database tableName db s := by
  obtain ⟨ctx, stmt⟩ := s
  cases stmt with
  | insert name rows =>
      rintro ⟨rfl, rfl⟩ schema hschema
      exact StepsFit.imp (P := fun state : Db n × Nat =>
          Counted state.1.store.entries ctx.currentDb name)
        (fun state vals after hstate hrow hafter => hstate.insertRow hd ht hrow hafter)
        (fun state vals hstate hrow => hstate.drawsFresh hd ht hrow) hcounted
        (hfits ⟨rfl, rfl⟩ schema hschema)
  | _ => trivial

end Statements

/-! ## Every history -/

theorem counted_empty (database tableName : CStr) :
    Counted (empty : Table CStr Value n) database tableName where
  readable i v hentry := by cases hentry
  next c hlast id hid := by
    obtain ⟨_, i, hi⟩ := mem_numericIds.mp hid
    cases hi

/-- In every history whose steps fit, AUTO draws a number no row has, the row is stored under it,
and the counter is then no smaller than any all-digit id of the table. -/
theorem auto_ids_fresh (database tableName : CStr) (steps : List (SessionContext × ASTNode))
    (hd : Sql.isWord database = true) (ht : Sql.isWord tableName = true)
    (hsteps : ∀ s ∈ steps, Sql.isWord s.1.currentDb = true ∧ isHistoryStatement s.2 = true)
    (hfits : StepsFit statementStep (CounterFits database tableName) (serverInit : Db 1024) steps) :
    StepsFit statementStep (AutoFresh database tableName) (serverInit : Db 1024) steps :=
  StepsFit.imp (P := fun db : Db 1024 => Counted db.store.entries database tableName)
    (fun _ _ _ hcounted hstep hexec =>
      hcounted.step hd ht hstep.2.1 hstep.2.2 hstep.1 hexec)
    (fun _ _ hcounted hstep => hcounted.autoFresh hd ht hstep.1)
    (counted_empty database tableName) (hfits.and_forall hsteps)

/-- `INSERT INTO t VALUES (id, v)` -/
def insertId (id v : String) : ASTNode :=
  .insert (CStr.lit "t") [[CStr.lit id, CStr.lit v]]

/-- Numbers drawn before and behind an explicit one, and again behind a DROP of the empty table. -/
def countedSteps : List (SessionContext × ASTNode) :=
  [makeTable, insertId "AUTO" "a", insertId "5" "b", insertId "AUTO" "c",
    .delete (CStr.lit "t") (idIs "1"), .delete (CStr.lit "t") (idIs "5"),
    .delete (CStr.lit "t") (idIs "6"), .dropTable (CStr.lit "t"), makeTable,
    insertId "AUTO" "d"].map fun stmt => (publicSession, stmt)

theorem auto_ids_fresh_countedSteps :
    StepsFit statementStep (AutoFresh (CStr.lit "public") (CStr.lit "t")) (serverInit : Db 1024)
      countedSteps :=
  auto_ids_fresh (CStr.lit "public") (CStr.lit "t") countedSteps (by decide) (by decide)
    (by decide) (by decide +kernel)

/-- A table that is dropped with its row and made again. -/
def staleTable : List (SessionContext × ASTNode) :=
  [makeTable, insertId "1" "a", .dropTable (CStr.lit "t"), makeTable].map
    fun stmt => (publicSession, stmt)

/-- AUTO then draws the number of the row that was left, and stores nothing. -/
theorem auto_draws_a_live_id :
    ∃ db, staleTable.foldlM statementStep (serverInit : Db 1024) = some db ∧
      (∃ after, executeInsert db publicSession (CStr.lit "t")
          [[CStr.lit "AUTO", CStr.lit "b"]] = some after ∧
        after.out.getLast? = some (CStr.lit "Inserted 0 row(s) into 't'.\n") ∧
        kvGet after.store (rowKey (CStr.lit "public") (CStr.lit "t") (CStr.lit "1")) =
          kvGet db.store (rowKey (CStr.lit "public") (CStr.lit "t") (CStr.lit "1"))) ∧
      ¬ StepsFit statementStep (AutoFresh (CStr.lit "public") (CStr.lit "t"))
        (serverInit : Db 1024) (staleTable ++ [(publicSession, insertId "AUTO" "b")]) := by
  have hstate : (staleTable.foldlM statementStep (serverInit : Db 1024)).map (fun db =>
      ((counterOf db (counterKey (CStr.lit "public") (CStr.lit "t")) 0).bind nextInt,
        decide (Holds db.store.entries
          (rowKey (CStr.lit "public") (CStr.lit "t") (CStr.ofInt 1))))) =
      some (some 1, true) := by
    decide +kernel
  have hschema : (staleTable.foldlM statementStep (serverInit : Db 1024)).bind (fun db =>
      (schemaText (kvGet db.store (schemaKey (CStr.lit "public") (CStr.lit "t")))).map
        fun schema => [CStr.lit "AUTO", CStr.lit "b"][pkIndex schema]?) =
      some (some (CStr.lit "AUTO")) := by
    decide
  have hinsert : (staleTable.foldlM statementStep (serverInit : Db 1024)).bind (fun db =>
      (executeInsert db publicSession (CStr.lit "t") [[CStr.lit "AUTO", CStr.lit "b"]]).map
        fun after => (after.out.getLast?,
          decide (kvGet after.store (rowKey (CStr.lit "public") (CStr.lit "t") (CStr.lit "1")) =
            kvGet db.store (rowKey (CStr.lit "public") (CStr.lit "t") (CStr.lit "1"))))) =
      some (some (CStr.lit "Inserted 0 row(s) into 't'.\n"), true) := by
    decide
  obtain ⟨db, hrun, hview⟩ := Option.map_eq_some_iff.mp hstate
  obtain ⟨hnext, hheld⟩ := Prod.mk.inj hview
  rw [hrun, Option.bind_some] at hschema hinsert
  obtain ⟨after, hafter, hview⟩ := Option.map_eq_some_iff.mp hinsert
  obtain ⟨hout, hsame⟩ := Prod.mk.inj hview
  obtain ⟨schema, hstored, hpk⟩ := Option.map_eq_some_iff.mp hschema
  refine ⟨db, hrun, ⟨after, hafter, hout, of_decide_eq_true hsame⟩, fun hfits => ?_⟩
  have hlast := hfits.last hrun
  obtain ⟨seq, hseq, hfresh, _⟩ := (hlast ⟨rfl, rfl⟩ schema hstored).1 hpk
  cases Option.some_inj.mp (hseq.symm.trans hnext)
  exact hfresh (of_decide_eq_true hheld)

end Executor
end InventixDB
