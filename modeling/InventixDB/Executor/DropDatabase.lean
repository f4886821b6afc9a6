import InventixDB.Executor.RowKeys
import InventixDB.Executor.Writes
import InventixDB.Lib.ProbedErasures

/-!
# DropDatabase — what a drop leaves of the other databases

The keys of the database are collected first and deleted one by one.  Each delete only empties a
slot, and what stood behind it on a probe path is not found any more.
-/

namespace InventixDB
namespace Executor

open Storage
open Transaction
open Lib.OpenAddressing

variable {n : Nat} [NeZero n]

/-- The keys `kv_iterate` collects for a prefix. -/
def keysUnder (store : KVStore n) (pre : CStr) : List CStr :=
  kvIterate store (fun key _ keys => if CStr.startsWith pre key then keys ++ [key] else keys) []

/-- `sys_drop_db`: the result and the store it leaves; nothing when a key outgrows its buffer. -/
def sysDropDb (store : KVStore n) (dbName : CStr) : Option (Int × KVStore n) := do
  let existsKey ← sysDbKey dbName
  if (kvGet store existsKey).isNone then
    return (0, store)
  else if dbName = CStr.lit "public" then
    return (-1, store)
  else
    let pre ← CStr.sprintf 256 (CStr.lit "DB:" ++ dbName ++ CStr.lit ":")
    let store := (keysUnder store pre).foldl kvDelete store
    let sysKey ← sysDbKey dbName
    return (1, kvDelete store sysKey)

/-! ## The keys of a database -/

/-- What the keys of a database start with. -/
def dbPrefix (dbName : CStr) : CStr :=
  CStr.lit "DB:" ++ dbName ++ CStr.lit ":"

/-- The entry of a database in the registry. -/
def registryKey (dbName : CStr) : CStr :=
  CStr.lit "SYS:DB:" ++ dbName

/-- What stands under the prefix of a database belongs to it, and so does its registry entry. -/
def BelongsTo (dbName key : CStr) : Prop :=
  CStr.startsWith (dbPrefix dbName) key = true ∨ key = registryKey dbName

/-- The deletes of a drop, in their order. -/
def droppedKeys (store : KVStore n) (dbName : CStr) : List CStr :=
  keysUnder store (dbPrefix dbName) ++ [registryKey dbName]

/-- After the drop no key of the database is live, and every key of every other one is found as
before. -/
def DropsExactly (store : KVStore n) (dbName : CStr) : Prop :=
  ∃ result after, sysDropDb store dbName = some (result, after) ∧
    (∀ key, BelongsTo dbName key → kvGet after key = none) ∧
    ∀ other, 58 ∉ other.val → other ≠ dbName →
      ∀ key, BelongsTo other key → kvGet after key = kvGet store key

/-- What the store must be like for that. -/
def DropSpares (store : KVStore n) (dbName : CStr) : Prop :=
  dbName.length ≤ 248 ∧
    if (kvGet store (registryKey dbName)).isSome ∧ dbName ≠ CStr.lit "public" then
      ∀ other, 58 ∉ other.val → other ≠ dbName → ∀ key, BelongsTo other key →
        (BelongsTo dbName key → kvGet store key = none) ∧
        ∀ i, probe CStr.slot store.entries key = .hit i →
          Clear CStr.slot (cleared CStr.slot store.entries (droppedKeys store dbName)) key i
    else ∀ key, BelongsTo dbName key → kvGet store key = none

/-! ## Which keys are deleted -/

omit [NeZero n] in
theorem keysUnder_eq (store : KVStore n) (pre : CStr) :
    keysUnder store pre =
      ((toList store.entries).filter fun e => CStr.startsWith pre e.1).map Prod.fst := by
  suffices hfrom : ∀ (es : List (CStr × Value)) (keys : List CStr),
      es.foldl (fun keys e => if CStr.startsWith pre e.1 then keys ++ [e.1] else keys) keys =
        keys ++ (es.filter fun e => CStr.startsWith pre e.1).map Prod.fst by
    rw [keysUnder, kvIterate_eq_foldl, hfrom, List.nil_append]
  intro es
  induction es with
  | nil => simp
  | cons e es ih =>
      intro keys
      rw [List.foldl_cons, ih]
      by_cases hpre : CStr.startsWith pre e.1 = true
      · simp [hpre]
      · simp [hpre]

theorem entries_foldl_kvDelete (keys : List CStr) (store : KVStore n) :
    (keys.foldl kvDelete store).entries = keys.foldl (erase CStr.slot) store.entries := by
  induction keys generalizing store with
  | nil => rfl
  | cons key keys ih => rw [List.foldl_cons, ih, entries_kvDelete, List.foldl_cons]

/-- A key of the database is deleted, or stands in no slot. -/
theorem BelongsTo.mem_droppedKeys {store : KVStore n} {dbName key : CStr}
    (hkey : BelongsTo dbName key) {v : Value} (hlive : kvGet store key = some v) :
    key ∈ droppedKeys store dbName := by
  rw [droppedKeys, keysUnder_eq, List.mem_append, List.mem_map, List.mem_singleton]
  rcases hkey with hpre | hregistry
  · obtain ⟨i, _, hi⟩ := lookup_eq_some_iff_hit.mp hlive
    exact .inl ⟨(key, v), List.mem_filter.mpr ⟨mem_toList.mpr ⟨i, hi⟩, hpre⟩, rfl⟩
  · exact .inr hregistry

/-! ## The drop -/

theorem sysDbKey_eq (dbName : CStr) :
    sysDbKey dbName = if dbName.length ≤ 248 then some (registryKey dbName) else none := by
  have hlen : (CStr.lit "SYS:DB:" ++ dbName).length = 7 + dbName.length :=
    List.length_append
  rw [sysDbKey, CStr.sprintf, hlen]
  by_cases hfits : dbName.length ≤ 248
  · rw [if_pos hfits, if_pos (by omega)]
    rfl
  · rw [if_neg hfits, if_neg (by omega)]

theorem sprintf_dbPrefix {dbName : CStr} (hlen : dbName.length ≤ 248) :
    CStr.sprintf 256 (CStr.lit "DB:" ++ dbName ++ CStr.lit ":") = some (dbPrefix dbName) := by
  have hlength : (CStr.lit "DB:" ++ dbName ++ CStr.lit ":").length = 4 + dbName.length := by
    have hlit : (CStr.lit "DB:").length = 3 := rfl
    have hcolon : (CStr.lit ":").length = 1 := rfl
    unfold CStr.length at hlit hcolon ⊢
    rw [CStr.val_append, CStr.val_append, List.length_append, List.length_append]
    omega
  rw [CStr.sprintf, hlength, if_pos (by omega)]
  rfl

/-- The drop, when the name fits its buffers. -/
theorem sysDropDb_eq (store : KVStore n) {dbName : CStr} (hlen : dbName.length ≤ 248) :
    sysDropDb store dbName =
      if (kvGet store (registryKey dbName)).isNone then some (0, store)
      else if dbName = CStr.lit "public" then some (-1, store)
      else some (1, (droppedKeys store dbName).foldl kvDelete store) := by
  simp only [sysDropDb, sysDbKey_eq, if_pos hlen, sprintf_dbPrefix hlen, droppedKeys,
    List.foldl_append, List.foldl_cons, List.foldl_nil]
  rfl

/-- A drop is exact exactly when the name fits its buffers and either the drop is refused and no
key of the database is live, or no slot that the deletes empty stands on the way to a live key of
another database. -/
theorem dropsExactly_iff (store : KVStore n) (dbName : CStr) :
    DropsExactly store dbName ↔ DropSpares store dbName := by
  unfold DropsExactly DropSpares
  by_cases hlen : dbName.length ≤ 248
  case neg =>
    have hnone : sysDropDb store dbName = none := by
      simp [sysDropDb, sysDbKey_eq, if_neg hlen]
    rw [hnone]
    exact iff_of_false (fun ⟨_, _, h, _⟩ => nomatch h) fun h => hlen h.1
  rw [sysDropDb_eq store hlen]
  by_cases hdrop : (kvGet store (registryKey dbName)).isSome ∧ dbName ≠ CStr.lit "public"
  · have hsome : (kvGet store (registryKey dbName)).isNone = false := by
      simpa using hdrop.1
    rw [if_pos hdrop, hsome, if_neg Bool.false_ne_true, if_neg hdrop.2]
    have hget : ∀ key, kvGet ((droppedKeys store dbName).foldl kvDelete store) key =
        lookup CStr.slot
          (hide (cleared CStr.slot store.entries (droppedKeys store dbName)) store.entries)
          key := by
      intro key
      rw [kvGet, entries_foldl_kvDelete, foldl_erase]
    have hgone : ∀ key, BelongsTo dbName key →
        kvGet ((droppedKeys store dbName).foldl kvDelete store) key = none := by
      intro key hkey
      cases hlive : kvGet store key with
      | none =>
          rw [hget]
          exact lookup_hide_of_none hlive
      | some v =>
          rw [kvGet, entries_foldl_kvDelete]
          exact lookup_foldl_erase_of_mem (hkey.mem_droppedKeys hlive)
    constructor
    · rintro ⟨result, after, heq, _, hkept⟩
      cases heq
      refine ⟨hlen, fun other hother hne key hkey => ⟨fun hboth => ?_, ?_⟩⟩
      · rw [← hkept other hother hne key hkey]
        exact hgone key hboth
      · have hsame := hkept other hother hne key hkey
        rw [hget] at hsame
        exact lookup_hide_eq_iff.mp hsame
    · rintro ⟨_, hfits⟩
      refine ⟨1, _, rfl, hgone, fun other hother hne key hkey => ?_⟩
      rw [hget]
      exact lookup_hide_eq_iff.mpr (hfits other hother hne key hkey).2
  · rw [if_neg hdrop]
    have hrefused : ∃ result, (if (kvGet store (registryKey dbName)).isNone then some (0, store)
        else if dbName = CStr.lit "public" then some (-1, store)
        else some (1, (droppedKeys store dbName).foldl kvDelete store)) =
          some ((result : Int), store) := by
      by_cases hnone : (kvGet store (registryKey dbName)).isNone = true
      · exact ⟨0, if_pos hnone⟩
      · have hpublic : dbName = CStr.lit "public" := by
          by_contra hne
          exact hdrop ⟨Option.isSome_iff_ne_none.mpr (by simpa using hnone), hne⟩
        exact ⟨-1, by rw [if_neg hnone, if_pos hpublic]⟩
    obtain ⟨result, hresult⟩ := hrefused
    rw [hresult]
    constructor
    · rintro ⟨_, _, heq, hgone, _⟩
      cases heq
      exact ⟨hlen, hgone⟩
    · rintro ⟨_, hgone⟩
      exact ⟨result, store, rfl, hgone, fun _ _ _ _ _ => rfl⟩

/-- Databases `a` and `b`, each with one table; the schema keys share a slot. -/
def twoDatabases : KVStore 1024 :=
  [CStr.lit "SYS:DB:a", CStr.lit "SYS:DB:b", CStr.lit "DB:a:META:TBL:jx",
    CStr.lit "DB:b:META:TBL:a"].foldl (fun store key => kvPut store key rowA) defaultStore

theorem dropsExactly_iff_twoDatabases :
    DropsExactly twoDatabases (CStr.lit "a") ↔ DropSpares twoDatabases (CStr.lit "a") :=
  dropsExactly_iff twoDatabases (CStr.lit "a")

/-- Dropping `a` deletes the schema key in front of the one of `b`. -/
theorem drop_loses_other_database : ¬ DropsExactly twoDatabases (CStr.lit "a") := by
  rintro ⟨result, after, hdrop, _, hkept⟩
  have hlost : (sysDropDb twoDatabases (CStr.lit "a")).map
      (fun r => kvGet r.2 (CStr.lit "DB:b:META:TBL:a")) = some none := by
    decide +kernel
  have hlive : kvGet twoDatabases (CStr.lit "DB:b:META:TBL:a") = some rowA := by
    decide +kernel
  rw [hdrop] at hlost
  have hsame := hkept (CStr.lit "b") (by decide) (by decide) (CStr.lit "DB:b:META:TBL:a")
    (.inl (by decide))
  rw [hlive] at hsame
  rw [Option.map_some, hsame] at hlost
  cases hlost

end Executor
end InventixDB
