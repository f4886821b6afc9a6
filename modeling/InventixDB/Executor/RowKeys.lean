import InventixDB.Executor.Ast
import InventixDB.Sql.Lexer

/-!
# RowKeys — which keys of the store belong to a table

The names of databases and tables are words, so a key tells the table it belongs to: no row key of
one table has the prefix of another, and none is the key of a schema or of a counter.
-/

namespace InventixDB
namespace Executor

open Storage

/-! ## Keys -/

/-- The prefix of the row keys of a table. -/
def rowPrefix (database tableName : CStr) : CStr :=
  CStr.lit "DB:" ++ database ++ CStr.lit ":TBL:" ++ tableName ++ CStr.lit ":"

def rowKey (database tableName pk : CStr) : CStr :=
  CStr.lit "DB:" ++ database ++ CStr.lit ":TBL:" ++ tableName ++ CStr.lit ":" ++ pk

def schemaKey (database tableName : CStr) : CStr :=
  CStr.lit "DB:" ++ database ++ CStr.lit ":META:TBL:" ++ tableName

def counterKey (database tableName : CStr) : CStr :=
  CStr.lit "DB:" ++ database ++ CStr.lit ":SEQ:" ++ tableName

theorem sysGenerateKeyTable_eq_some {database tableName pk key : CStr}
    (hkey : sysGenerateKeyTable database tableName pk = some key) :
    key = rowKey database tableName pk :=
  (CStr.sprintf_eq_some hkey).1

theorem sysGenerateKeySchema_eq_some {database tableName key : CStr}
    (hkey : sysGenerateKeySchema database tableName = some key) :
    key = schemaKey database tableName :=
  (CStr.sprintf_eq_some hkey).1

theorem sysGenerateKeySeq_eq_some {database tableName key : CStr}
    (hkey : sysGenerateKeySeq database tableName = some key) :
    key = counterKey database tableName :=
  (CStr.sprintf_eq_some hkey).1

/-- A word has no colon. -/
theorem colon_notMem_of_isWord {name : CStr} (hword : Sql.isWord name = true) :
    (58 : UInt8) ∉ name.val := by
  intro hcolon
  exact absurd (List.all_eq_true.mp hword 58 hcolon) (by decide)

/-- Texts are taken apart at the first separator in one way only. -/
theorem append_cons_inj_of_notMem {c : UInt8} {a b xs ys : List UInt8} (ha : c ∉ a) (hb : c ∉ b)
    (heq : a ++ c :: xs = b ++ c :: ys) : a = b ∧ xs = ys := by
  induction a generalizing b with
  | nil =>
      cases b with
      | nil =>
          cases heq
          exact ⟨rfl, rfl⟩
      | cons d b =>
          cases heq
          exact absurd List.mem_cons_self hb
  | cons d a ih =>
      cases b with
      | nil =>
          cases heq
          exact absurd List.mem_cons_self ha
      | cons d' b =>
          obtain ⟨rfl, hrest⟩ := List.cons.inj heq
          obtain ⟨rfl, rfl⟩ := ih (fun hmem => ha (List.mem_cons_of_mem _ hmem))
            (fun hmem => hb (List.mem_cons_of_mem _ hmem)) hrest
          exact ⟨rfl, rfl⟩

/-- The bytes behind the name of the database. -/
theorem val_rowKey (database tableName pk : CStr) :
    (rowKey database tableName pk).val =
      (CStr.lit "DB:").val ++ (database.val ++ 58 :: ([84, 66, 76, 58] ++
        (tableName.val ++ 58 :: pk.val))) := by
  have htbl : (CStr.lit ":TBL:").val = 58 :: [84, 66, 76, 58] := by decide
  have hcolon : (CStr.lit ":").val = [58] := by decide
  simp [rowKey, CStr.val_append, htbl, hcolon]

theorem val_schemaKey (database tableName : CStr) :
    (schemaKey database tableName).val =
      (CStr.lit "DB:").val ++ (database.val ++ 58 :: (77 :: ([69, 84, 65, 58, 84, 66, 76, 58] ++
        tableName.val))) := by
  have hmeta : (CStr.lit ":META:TBL:").val = 58 :: 77 :: [69, 84, 65, 58, 84, 66, 76, 58] := by
    decide
  simp [schemaKey, CStr.val_append, hmeta]

theorem val_counterKey (database tableName : CStr) :
    (counterKey database tableName).val =
      (CStr.lit "DB:").val ++ (database.val ++ 58 :: (83 :: ([69, 81, 58] ++ tableName.val))) := by
  have hseq : (CStr.lit ":SEQ:").val = 58 :: 83 :: [69, 81, 58] := by decide
  simp [counterKey, CStr.val_append, hseq]

/-- The keys with the prefix of a table are its row keys. -/
theorem startsWith_rowPrefix_iff {database tableName key : CStr} :
    CStr.startsWith (rowPrefix database tableName) key = true ↔
      ∃ pk, key = rowKey database tableName pk := by
  unfold CStr.startsWith
  rw [List.isPrefixOf_iff_prefix]
  constructor
  · rintro ⟨rest, hrest⟩
    have hnul : 0 ∉ rest := by
      intro hmem
      refine key.property ?_
      rw [← hrest]
      exact List.mem_append_right _ hmem
    refine ⟨⟨rest, hnul⟩, Subtype.ext ?_⟩
    rw [← hrest, rowKey, CStr.val_append]
    rfl
  · rintro ⟨pk, rfl⟩
    rw [rowKey, CStr.val_append]
    exact List.prefix_append _ _

/-! ## Keys of tables named by words -/

section Words

variable {database database' tableName tableName' pk pk' : CStr}

/-- A row key tells its table and its primary key. -/
theorem rowKey_inj (hd : Sql.isWord database = true) (hd' : Sql.isWord database' = true)
    (ht : Sql.isWord tableName = true) (ht' : Sql.isWord tableName' = true)
    (heq : rowKey database tableName pk = rowKey database' tableName' pk') :
    database = database' ∧ tableName = tableName' ∧ pk = pk' := by
  have hval := congrArg Subtype.val heq
  rw [val_rowKey, val_rowKey] at hval
  obtain ⟨hdatabase, hrest⟩ := append_cons_inj_of_notMem (colon_notMem_of_isWord hd)
    (colon_notMem_of_isWord hd') (List.append_cancel_left hval)
  obtain ⟨htable, hpk⟩ := append_cons_inj_of_notMem (colon_notMem_of_isWord ht)
    (colon_notMem_of_isWord ht') (List.append_cancel_left hrest)
  exact ⟨Subtype.ext hdatabase, Subtype.ext htable, Subtype.ext hpk⟩

theorem schemaKey_inj (hd : Sql.isWord database = true) (hd' : Sql.isWord database' = true)
    (heq : schemaKey database tableName = schemaKey database' tableName') :
    database = database' ∧ tableName = tableName' := by
  have hval := congrArg Subtype.val heq
  rw [val_schemaKey, val_schemaKey] at hval
  obtain ⟨hdatabase, hrest⟩ := append_cons_inj_of_notMem (colon_notMem_of_isWord hd)
    (colon_notMem_of_isWord hd') (List.append_cancel_left hval)
  exact ⟨Subtype.ext hdatabase, Subtype.ext (List.append_cancel_left (List.cons.inj hrest).2)⟩

theorem counterKey_inj (hd : Sql.isWord database = true) (hd' : Sql.isWord database' = true)
    (heq : counterKey database tableName = counterKey database' tableName') :
    database = database' ∧ tableName = tableName' := by
  have hval := congrArg Subtype.val heq
  rw [val_counterKey, val_counterKey] at hval
  obtain ⟨hdatabase, hrest⟩ := append_cons_inj_of_notMem (colon_notMem_of_isWord hd)
    (colon_notMem_of_isWord hd') (List.append_cancel_left hval)
  exact ⟨Subtype.ext hdatabase, Subtype.ext (List.append_cancel_left (List.cons.inj hrest).2)⟩

theorem rowKey_ne_schemaKey (hd : Sql.isWord database = true)
    (hd' : Sql.isWord database' = true) :
    rowKey database tableName pk ≠ schemaKey database' tableName' := by
  intro heq
  have hval := congrArg Subtype.val heq
  rw [val_rowKey, val_schemaKey] at hval
  obtain ⟨_, hrest⟩ := append_cons_inj_of_notMem (colon_notMem_of_isWord hd)
    (colon_notMem_of_isWord hd') (List.append_cancel_left hval)
  exact absurd (List.cons.inj hrest).1 (by decide)

theorem rowKey_ne_counterKey (hd : Sql.isWord database = true)
    (hd' : Sql.isWord database' = true) :
    rowKey database tableName pk ≠ counterKey database' tableName' := by
  intro heq
  have hval := congrArg Subtype.val heq
  rw [val_rowKey, val_counterKey] at hval
  obtain ⟨_, hrest⟩ := append_cons_inj_of_notMem (colon_notMem_of_isWord hd)
    (colon_notMem_of_isWord hd') (List.append_cancel_left hval)
  exact absurd (List.cons.inj hrest).1 (by decide)

theorem counterKey_ne_schemaKey (hd : Sql.isWord database = true)
    (hd' : Sql.isWord database' = true) :
    counterKey database tableName ≠ schemaKey database' tableName' := by
  intro heq
  have hval := congrArg Subtype.val heq
  rw [val_counterKey, val_schemaKey] at hval
  obtain ⟨_, hrest⟩ := append_cons_inj_of_notMem (colon_notMem_of_isWord hd)
    (colon_notMem_of_isWord hd') (List.append_cancel_left hval)
  exact absurd (List.cons.inj hrest).1 (by decide)

end Words

end Executor
end InventixDB
