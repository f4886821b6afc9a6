import InventixDB.Executor.Select
import InventixDB.Transaction.Rollback

/-!
# Targets — the rows a DELETE or UPDATE touches

Both statements accept a condition that compares `id` with a literal, and touch the entry under
the key that literal gives.  They touch exactly the rows for which the condition is true if that
entry is the one such row.
-/

namespace InventixDB
namespace Executor

open Storage
open Transaction
open Lib.OpenAddressing

variable {n : Nat} [NeZero n]

/-! ## The rows a condition selects -/

/-- What a scan by the condition of a statement would know of the table. -/
def conditionScan (store : KVStore n) (database tableName : CStr)
    (whereClause : Option ASTExpr) : ScanContext where
  database := database
  tableName := tableName
  whereClause := whereClause
  columns :=
    ((sysGenerateKeySchema database tableName).bind fun key =>
      (kvGet store key).bind tableColumns).getD []

/-- No selected row has this key. -/
def Unselected (store : KVStore n) (scan : ScanContext) (key : CStr) : Prop :=
  ∀ i e, store.entries i = some e → (slotRow store scan i).isSome = true → e.1 ≠ key

/-- A statement says `message` and leaves every key as it was. -/
def Refuses (db db' : Db n) (message : CStr) : Prop :=
  db'.out = db.out ++ [message] ∧ db'.store = db.store

/-! ## DELETE -/

/-- The selected rows are gone; every other entry stands in its slot and is found by its key. -/
structure RemovesExactly (before after : KVStore n) (scan : ScanContext) : Prop where
  slots : ∀ i, after.entries i =
    if (slotRow before scan i).isSome then none else before.entries i
  others : ∀ key, Unselected before scan key → kvGet after key = kvGet before key

/-- The row under `key` is the one selected, and its slot is on the way to no other key. -/
structure RemovalFits (store : KVStore n) (scan : ScanContext) (key : CStr) : Prop where
  meant : ∀ i, (slotRow store scan i).isSome = true ↔ probe CStr.slot store.entries key = .hit i
  clear : ∀ other i j, other ≠ key → probe CStr.slot store.entries key = .hit j →
    probe CStr.slot store.entries other = .hit i → ¬ Before CStr.slot other j i

theorem slots_kvDelete_iff (store : KVStore n) (scan : ScanContext) (key : CStr) :
    (∀ i, (kvDelete store key).entries i =
        if (slotRow store scan i).isSome then none else store.entries i) ↔
      ∀ i, (slotRow store scan i).isSome = true ↔
        probe CStr.slot store.entries key = .hit i := by
  have hoccupied : ∀ i, (slotRow store scan i).isSome = true → store.entries i ≠ none := by
    intro i hi hnone
    rw [slotRow, hnone] at hi
    cases hi
  rw [entries_kvDelete]
  refine forall_congr' fun i => ?_
  by_cases hhit : probe CStr.slot store.entries key = .hit i
  · obtain ⟨⟨v, hv⟩, _⟩ := probe_eq_hit_iff.mp hhit
    rw [erase_of_hit hhit, Function.update_self]
    simp only [hhit, iff_true]
    cases hrow : (slotRow store scan i).isSome with
    | true => simp
    | false => simp [hv]
  · have hsame : erase CStr.slot store.entries key i = store.entries i := by
      cases hp : probe CStr.slot store.entries key with
      | hit j =>
          rw [erase_of_hit hp, Function.update_of_ne]
          rintro rfl
          exact hhit hp
      | free j => simp [erase, hp]
      | full => simp [erase, hp]
    rw [hsame]
    simp only [hhit, iff_false]
    cases hrow : (slotRow store scan i).isSome with
    | true => simp [hoccupied i hrow]
    | false => simp

/-- `kv_delete` removes exactly the selected rows if and only if its key is the one of the only
selected row and its slot can be spared. -/
theorem removesExactly_iff (store : KVStore n) (scan : ScanContext) (key : CStr) :
    RemovesExactly store (kvDelete store key) scan ↔ RemovalFits store scan key := by
  constructor
  · intro hexact
    have hmeant := (slots_kvDelete_iff store scan key).mp hexact.slots
    refine ⟨hmeant, fun other i j hne hhit hother => ?_⟩
    have hunselected : Unselected store scan other := by
      intro i' e he hrow hkey
      cases hhit.symm.trans ((hmeant i').mp hrow)
      obtain ⟨⟨v, hv⟩, _⟩ := probe_eq_hit_iff.mp hhit
      rw [hv] at he
      cases he
      exact hne hkey.symm
    have hget := hexact.others other hunselected
    unfold kvGet at hget
    rw [entries_kvDelete] at hget
    exact (lookup_erase_eq_iff hne hhit).mp hget i hother
  · intro hfits
    refine ⟨(slots_kvDelete_iff store scan key).mpr hfits.meant, fun other hunselected => ?_⟩
    unfold kvGet
    rw [entries_kvDelete]
    cases hp : probe CStr.slot store.entries key with
    | hit j =>
        have hne : other ≠ key := by
          rintro rfl
          obtain ⟨⟨v, hv⟩, _⟩ := probe_eq_hit_iff.mp hp
          exact hunselected j _ hv ((hfits.meant j).mpr hp) rfl
        exact (lookup_erase_eq_iff hne hp).mpr fun i hother => hfits.clear other i j hne hp hother
    | free j => simp [erase, hp]
    | full => simp [erase, hp]

/-- What a DELETE says when it does not support its condition. -/
def deleteRefusal : CStr :=
  CStr.lit "Generic Delete requires ID currently (e.g. id=1).\n"

/-- A DELETE by `id = …` is meant for the row under the key of that id. -/
def DeleteFits (store : KVStore n) (ctx : SessionContext) (tableName : CStr)
    (whereClause : Option ASTExpr) : Prop :=
  ∀ id key, deleteTarget whereClause = some (some id) →
    sysGenerateKeyTable ctx.currentDb tableName id = some key →
    RemovalFits store (conditionScan store ctx.currentDb tableName whereClause) key

omit [NeZero n] in
theorem out_pushOperation (db : Db n) (op : TxnOperation) : (db.pushOperation op).out = db.out := by
  unfold Db.pushOperation
  split <;> rfl

/-- What a DELETE does: it refuses, or deletes one key. -/
theorem delete_cases {db db' : Db n} {ctx : SessionContext} {tableName : CStr}
    {whereClause : Option ASTExpr}
    (hexec : executeDelete db ctx tableName whereClause = some db') :
    (deleteTarget whereClause = some none ∧ Refuses db db' deleteRefusal) ∨
      ∃ id key, deleteTarget whereClause = some (some id) ∧
        sysGenerateKeyTable ctx.currentDb tableName id = some key ∧
        db'.store = kvDelete db.store key ∧
        db'.out = db.out ++ [CStr.lit "Deleted key: " ++ key ++ CStr.lit "\n"] := by
  obtain ⟨target, htarget, hexec⟩ := Option.bind_eq_some_iff.mp hexec
  cases target with
  | none =>
      cases hexec
      exact .inl ⟨htarget, rfl, rfl⟩
  | some id =>
      obtain ⟨key, hkey, hexec⟩ := Option.bind_eq_some_iff.mp hexec
      cases hexec
      refine .inr ⟨id, key, htarget, hkey, ?_, ?_⟩
      · cases db.get key with
        | none => rfl
        | some old =>
            exact congrArg (fun store => kvDelete store key) (store_pushOperation db _)
      · cases db.get key with
        | none => rfl
        | some old => exact congrArg (· ++ _) (out_pushOperation db _)

omit [NeZero n] in
/-- A statement that says something else has not refused. -/
theorem not_refuses {db db' : Db n} {said message : CStr} (hout : db'.out = db.out ++ [said])
    (k : Nat) (hne : said.val.take k ≠ message.val.take k) : ¬ Refuses db db' message := by
  rintro ⟨hrefused, _⟩
  have hsame := List.append_cancel_left (hout.symm.trans hrefused)
  cases hsame
  exact hne rfl

/-- A DELETE refuses or removes exactly the selected rows if and only if it names the key of the
only one. -/
theorem delete_exact_iff {db db' : Db n} {ctx : SessionContext} {tableName : CStr}
    {whereClause : Option ASTExpr}
    (hexec : executeDelete db ctx tableName whereClause = some db') :
    Refuses db db' deleteRefusal ∨
        RemovesExactly db.store db'.store
          (conditionScan db.store ctx.currentDb tableName whereClause) ↔
      DeleteFits db.store ctx tableName whereClause := by
  rcases delete_cases hexec with ⟨htarget, hrefuses⟩ | ⟨id, key, htarget, hkey, hstore, hout⟩
  · refine iff_of_true (.inl hrefuses) fun id key hid => ?_
    rw [htarget] at hid
    cases hid
  · have hspoke : ¬ Refuses db db' deleteRefusal := by
      rw [← List.singleton_append] at hout
      refine not_refuses hout 1 ?_
      rw [CStr.val_append, CStr.val_append, List.append_assoc,
        List.take_append_of_le_length (by decide)]
      decide
    rw [or_iff_right hspoke, hstore, removesExactly_iff]
    constructor
    · intro hfits id' key' hid' hkey'
      rw [htarget] at hid'
      cases hid'
      cases hkey.symm.trans hkey'
      exact hfits
    · intro hfits
      exact hfits id key htarget hkey

/-! ## UPDATE -/

/-- The columns the SET list of an UPDATE may name. -/
def tableSchema (store : KVStore n) (database tableName : CStr) : Option CStr := do
  let key ← sysGenerateKeySchema database tableName
  CStr.ofBuffer? (← kvGet store key).data

/-- The value a SET list gives column `j`: that of the last assignment to the first column of a
name. -/
def setValue (names : List CStr) (sets : List (CStr × CStr)) (j : Nat) : Option CStr :=
  (sets.reverse.find? fun set =>
    (names.findIdx? fun name => CStr.sameIgnoringCase set.1 name) = some j).map Prod.snd

/-- `row'` is `row` with the values of the SET list in its columns, and the same in all others. -/
def SetColumns (names : List CStr) (sets : List (CStr × CStr)) (row row' : List CStr) : Prop :=
  ∀ j, row'[j]? = row[j]?.map fun old => (setValue names sets j).getD old

/-- A later assignment to a column hides an earlier one. -/
theorem setValue_cons (names : List CStr) (set : CStr × CStr) (sets : List (CStr × CStr))
    (j : Nat) :
    setValue names (set :: sets) j =
      (setValue names sets j).or
        (if (names.findIdx? fun name => CStr.sameIgnoringCase set.1 name) = some j then some set.2
        else none) := by
  unfold setValue
  rw [List.reverse_cons, List.find?_append, Option.map_or]
  congr 1
  rw [List.find?_singleton]
  split <;> simp_all

theorem applySets_setColumns (names : List CStr) (sets : List (CStr × CStr)) (row : List CStr) :
    SetColumns names sets row (applySets names sets row) := by
  intro j
  induction sets generalizing row with
  | nil => simp [applySets, setValue]
  | cons set sets ih =>
      have hstep : applySets names (set :: sets) row =
          applySets names sets (applySets names [set] row) := rfl
      rw [hstep, ih, setValue_cons]
      unfold applySets
      rw [List.foldl_cons, List.foldl_nil]
      cases hidx : names.findIdx? fun name => CStr.sameIgnoringCase set.1 name with
      | none => simp
      | some k =>
          dsimp only
          by_cases hkj : k = j
          · subst hkj
            rw [List.getElem?_set_self', if_pos rfl]
            cases row[k]? with
            | none => rfl
            | some old => cases setValue names sets k <;> rfl
          · rw [List.getElem?_set_ne hkj, if_neg (by simpa using hkj), Option.or_none]

theorem length_applySets (names : List CStr) (sets : List (CStr × CStr)) (row : List CStr) :
    (applySets names sets row).length = row.length := by
  induction sets generalizing row with
  | nil => rfl
  | cons set sets ih =>
      refine (ih (applySets names [set] row)).trans ?_
      unfold applySets
      rw [List.foldl_cons, List.foldl_nil]
      split
      · exact List.length_set
      · rfl

/-- The selected rows have the values of the SET list in its columns; every other entry stands in
its slot and is found by its key. -/
structure ChangesExactly (before after : KVStore n) (scan : ScanContext) (names : List CStr)
    (sets : List (CStr × CStr)) : Prop where
  unselected : ∀ i, slotRow before scan i = none → after.entries i = before.entries i
  selected : ∀ i key val row, before.entries i = some (key, val) →
    slotRow before scan i = some row →
    ∃ val' row', after.entries i = some (key, val') ∧
      rowDeserialize val'.data = some (some row') ∧ SetColumns names sets row row'
  others : ∀ key, Unselected before scan key → kvGet after key = kvGet before key

/-- The slot and the row an UPDATE by a key rewrites. -/
def rewrittenRow (store : KVStore n) (key : CStr) : Option (Fin n × List CStr) :=
  match probe CStr.slot store.entries key with
  | .hit i =>
      (store.entries i).bind fun e => (rowDeserialize e.2.data).join.map fun row => (i, row)
  | _ => none

/-- Every selected row is the one rewritten or has the values of the SET list already; and if the
one rewritten is not selected, rewriting it changes nothing. -/
structure RewriteFits (store : KVStore n) (scan : ScanContext) (names : List CStr)
    (sets : List (CStr × CStr)) (key : CStr) (target : Option (Fin n × List CStr)) : Prop where
  found : ∀ i row, slotRow store scan i = some row →
    (∃ values, target = some (i, values)) ∨ SetColumns names sets row row
  meant : ∀ i values, target = some (i, values) → slotRow store scan i = none →
    ∃ data, rowSerialize (applySets names sets values) = some data ∧
      store.entries i = some (key, { data := data, type := .row })

section Rewrite

variable {before after : KVStore n} {scan : ScanContext} {names : List CStr}
  {sets : List (CStr × CStr)} {key : CStr} {i : Fin n} {row : List CStr}

omit [NeZero n] in
/-- The row of a slot is what its value holds. -/
theorem slotRow_eq_some {key : CStr} {val : Value} (hentry : before.entries i = some (key, val))
    (hrow : slotRow before scan i = some row) : rowDeserialize val.data = some (some row) := by
  rw [slotRow, hentry, Option.bind_some, matchingRow, Option.filter_eq_some_iff] at hrow
  obtain ⟨hrow, _⟩ := hrow
  unfold tableRow at hrow
  split at hrow
  · exact Option.join_eq_some_iff.mp hrow
  · cases hrow

omit [NeZero n] in
theorem entries_of_slotRow (hrow : slotRow before scan i = some row) :
    ∃ key val, before.entries i = some (key, val) := by
  cases hentry : before.entries i with
  | none =>
      rw [slotRow, hentry] at hrow
      cases hrow
  | some e => exact ⟨e.1, e.2, rfl⟩

/-- Where every slot keeps its key, a probe finds what it found, unless the entry is changed. -/
theorem kvGet_of_sameKeys (hkeys : SameKeys before.entries after.entries)
    (hsame : ∀ i, slotRow before scan i = none → after.entries i = before.entries i)
    {other : CStr} (hother : Unselected before scan other) :
    kvGet after other = kvGet before other := by
  unfold kvGet lookup
  rw [← hkeys.probe_eq other]
  cases hp : probe CStr.slot before.entries other with
  | hit i =>
      obtain ⟨⟨v, hv⟩, _⟩ := probe_eq_hit_iff.mp hp
      have hnone : slotRow before scan i = none := by
        cases hrow : slotRow before scan i with
        | none => rfl
        | some row => exact absurd rfl (hother i _ hv (by rw [hrow]; rfl))
      dsimp only
      rw [hsame i hnone]
  | free i => rfl
  | full => rfl

/-- Where nothing is written, the selected rows must have the values already. -/
theorem changesExactly_unchanged (key : CStr) (hsame : after.entries = before.entries) :
    ChangesExactly before after scan names sets ↔ RewriteFits before scan names sets key none := by
  constructor
  · intro hexact
    refine ⟨fun i row hrow => .inr ?_, fun i values htarget => by cases htarget⟩
    obtain ⟨key, val, hentry⟩ := entries_of_slotRow hrow
    obtain ⟨val', row', hafter, hread, hset⟩ := hexact.selected i key val row hentry hrow
    rw [hsame, hentry] at hafter
    cases hafter
    rw [slotRow_eq_some hentry hrow] at hread
    cases hread
    exact hset
  · intro hfits
    refine ⟨fun i _ => by rw [hsame], fun i key val row hentry hrow => ?_, fun other _ => ?_⟩
    · rcases hfits.found i row hrow with ⟨_, htarget⟩ | hset
      · cases htarget
      · exact ⟨val, row, by rw [hsame, hentry], slotRow_eq_some hentry hrow, hset⟩
    · unfold kvGet
      rw [hsame]

/-- Where one slot is rewritten, it must be the one selected, or nothing may change. -/
theorem changesExactly_rewritten {val : Value} {values : List CStr} {data : List UInt8} {j : Fin n}
    (hentry : before.entries j = some (key, val))
    (hread : rowDeserialize val.data = some (some values))
    (hdata : rowSerialize (applySets names sets values) = some data)
    (hafter : after.entries =
      Function.update before.entries j (some (key, { data := data, type := .row }))) :
    ChangesExactly before after scan names sets ↔
      RewriteFits before scan names sets key (some (j, values)) := by
  constructor
  · intro hexact
    refine ⟨fun i row hrow => ?_, fun i values' htarget hnone => ?_⟩
    · by_cases hij : i = j
      · subst hij
        exact .inl ⟨values, rfl⟩
      · right
        obtain ⟨key', val', hentry'⟩ := entries_of_slotRow hrow
        obtain ⟨_, row', hafter', hread', hset⟩ := hexact.selected i key' val' row hentry' hrow
        rw [hafter, Function.update_of_ne hij, hentry'] at hafter'
        cases hafter'
        rw [slotRow_eq_some hentry' hrow] at hread'
        cases hread'
        exact hset
    · cases htarget
      have hsame := hexact.unselected j hnone
      rw [hafter, Function.update_self] at hsame
      exact ⟨data, hdata, hsame.symm⟩
  · intro hfits
    have hunselected : ∀ i, slotRow before scan i = none → after.entries i = before.entries i := by
      intro i hnone
      rw [hafter]
      by_cases hij : i = j
      · subst hij
        obtain ⟨data', hdata', hsame⟩ := hfits.meant i values rfl hnone
        rw [hdata] at hdata'
        cases hdata'
        rw [Function.update_self, hsame]
      · rw [Function.update_of_ne hij]
    refine ⟨hunselected, fun i key' val' row hentry' hrow => ?_, fun other hother => ?_⟩
    · rw [hafter]
      by_cases hij : i = j
      · subst hij
        rw [hentry] at hentry'
        cases hentry'
        rw [slotRow_eq_some hentry hrow] at hread
        cases hread
        refine ⟨_, applySets names sets values, Function.update_self _ _ _, ?_,
          applySets_setColumns names sets values⟩
        refine rowDeserialize_rowSerialize ?_ hdata
        rw [length_applySets]
        exact length_rowDeserialize (slotRow_eq_some hentry hrow)
      · rcases hfits.found i row hrow with ⟨_, htarget⟩ | hset
        · cases htarget
          exact absurd rfl hij
        · exact ⟨val', row, by rw [Function.update_of_ne hij, hentry'],
            slotRow_eq_some hentry' hrow, hset⟩
    · -- the key of the rewritten slot stays, so every probe goes the same way
      refine kvGet_of_sameKeys (fun i => ?_) hunselected hother
      rw [hafter]
      by_cases hij : i = j
      · subst hij
        rw [Function.update_self, hentry]
        rfl
      · rw [Function.update_of_ne hij]

end Rewrite

/-- What an UPDATE says when it does not support its condition, or sets a column that the table
does not have. -/
def updateRefusals (tableName : CStr) (sets : List (CStr × CStr)) : List CStr :=
  CStr.lit ("UPDATE without id=X condition not fully " ++
      "implemented. Use: UPDATE table SET col=val WHERE id=X;\n") ::
    sets.map fun set =>
      CStr.lit "Error: Column '" ++ set.1 ++ CStr.lit "' does not exist in table '" ++ tableName ++
        CStr.lit "'.\n"

theorem take_updateRefusals {tableName : CStr} {sets : List (CStr × CStr)} {message : CStr}
    (hmem : message ∈ updateRefusals tableName sets) :
    message.val.take 10 = (CStr.lit "UPDATE wit").val ∨
      message.val.take 10 = (CStr.lit "Error: Col").val := by
  rcases List.mem_cons.mp hmem with rfl | hset
  · left
    decide
  · right
    obtain ⟨set, _, rfl⟩ := List.mem_map.mp hset
    simp only [CStr.val_append, List.append_assoc]
    rw [List.take_append_of_le_length (by decide)]
    decide

omit [NeZero n] in
/-- An UPDATE that says something else has not refused. -/
theorem not_refuses_update {db db' : Db n} {tableName : CStr} {sets : List (CStr × CStr)}
    {said : CStr} (start : String) (hout : db'.out = db.out ++ [said])
    (hsaid : ∃ rest, said.val = (CStr.lit start).val ++ rest)
    (hlen : 10 ≤ (CStr.lit start).val.length)
    (hne : (CStr.lit start).val.take 10 ∉
      [(CStr.lit "UPDATE wit").val, (CStr.lit "Error: Col").val]) :
    ∀ message ∈ updateRefusals tableName sets, ¬ Refuses db db' message := by
  intro message hmem
  obtain ⟨rest, hsaid⟩ := hsaid
  refine not_refuses hout 10 fun htake => hne ?_
  rw [hsaid, List.take_append_of_le_length hlen] at htake
  rw [htake]
  rcases take_updateRefusals hmem with heq | heq
  · rw [heq]
    exact List.mem_cons_self
  · rw [heq]
    exact List.mem_cons_of_mem _ List.mem_cons_self

/-- Every column of a SET list is one of the table. -/
def KnownColumns (names : List CStr) (sets : List (CStr × CStr)) : Prop :=
  ∀ set ∈ sets, (names.any fun name => CStr.sameIgnoringCase set.1 name) = true

/-- An UPDATE by `id = …` is meant for the row under the key of that id. -/
def UpdateFits (store : KVStore n) (ctx : SessionContext) (tableName : CStr)
    (sets : List (CStr × CStr)) (whereClause : Option ASTExpr) : Prop :=
  ∀ schema id key, tableSchema store ctx.currentDb tableName = some schema →
    KnownColumns (columnNames schema) sets → updateTarget whereClause = some id →
    sysGenerateKeyTable ctx.currentDb tableName id = some key →
    RewriteFits store (conditionScan store ctx.currentDb tableName whereClause)
      (columnNames schema) sets key (rewrittenRow store key)

/-- What an UPDATE of a table that exists, with columns it has, does to the entry under a key. -/
inductive Rewrites (db db' : Db n) (names : List CStr) (sets : List (CStr × CStr)) (key : CStr) :
    Prop
  | missed (hnone : rewrittenRow db.store key = none) (hstore : db'.store = db.store)
  | rewrote (j : Fin n) (val : Value) (values : List CStr) (data : List UInt8)
      (hentry : db.store.entries j = some (key, val))
      (htarget : rewrittenRow db.store key = some (j, values))
      (hread : rowDeserialize val.data = some (some values))
      (hdata : rowSerialize (applySets names sets values) = some data)
      (hstore : db'.store.entries =
        Function.update db.store.entries j (some (key, { data := data, type := .row })))

theorem rewrittenRow_of_none {store : KVStore n} {key : CStr} (hget : kvGet store key = none) :
    rewrittenRow store key = none := by
  have hmiss := lookup_eq_none_iff.mp hget
  unfold rewrittenRow
  cases hp : probe CStr.slot store.entries key with
  | hit i => exact absurd hp (hmiss i)
  | free i => rfl
  | full => rfl

theorem rewrittenRow_of_some {store : KVStore n} {key : CStr} {val : Value}
    (hget : kvGet store key = some val) :
    ∃ j, probe CStr.slot store.entries key = .hit j ∧ store.entries j = some (key, val) ∧
      rewrittenRow store key = (rowDeserialize val.data).join.map fun row => (j, row) := by
  obtain ⟨j, hp, hentry⟩ := lookup_eq_some_iff_hit.mp hget
  refine ⟨j, hp, hentry, ?_⟩
  rw [rewrittenRow, hp]
  dsimp only
  rw [hentry]
  rfl

section Update

variable {db db' : Db n} {ctx : SessionContext} {tableName : CStr} {sets : List (CStr × CStr)}
  {whereClause : Option ASTExpr}

/-- What an UPDATE does: it refuses, finds no table, or goes for one key. -/
theorem update_cases (hexec : executeUpdate db ctx tableName sets whereClause = some db') :
    (tableSchema db.store ctx.currentDb tableName = none ∧ db'.store = db.store) ∨
      ∃ schema, tableSchema db.store ctx.currentDb tableName = some schema ∧
        ((¬ (KnownColumns (columnNames schema) sets ∧ updateTarget whereClause ≠ none) ∧
            ∃ message ∈ updateRefusals tableName sets, Refuses db db' message) ∨
          ∃ id key, KnownColumns (columnNames schema) sets ∧ updateTarget whereClause = some id ∧
            sysGenerateKeyTable ctx.currentDb tableName id = some key ∧
            Rewrites db db' (columnNames schema) sets key ∧
            ∀ message ∈ updateRefusals tableName sets, ¬ Refuses db db' message) := by
  obtain ⟨metaKey, hmeta, hexec⟩ := Option.bind_eq_some_iff.mp hexec
  cases hget : db.get metaKey with
  | none =>
      rw [hget] at hexec
      cases hexec
      refine .inl ⟨?_, rfl⟩
      change (kvGet db.store metaKey) = none at hget
      unfold tableSchema
      rw [hmeta]
      change ((kvGet db.store metaKey).bind fun v => CStr.ofBuffer? v.data) = none
      rw [hget]
      rfl
  | some schemaVal =>
      rw [hget] at hexec
      obtain ⟨schema, hschema, hexec⟩ := Option.bind_eq_some_iff.mp hexec
      have htable : tableSchema db.store ctx.currentDb tableName = some schema :=
        Option.bind_eq_some_iff.mpr
          ⟨metaKey, hmeta, Option.bind_eq_some_iff.mpr ⟨schemaVal, hget, hschema⟩⟩
      refine .inr ⟨schema, htable, ?_⟩
      dsimp only at hexec
      split at hexec
      · next set hfind =>
          cases hexec
          have hmem := List.mem_of_find?_eq_some hfind
          have hunknown := List.find?_some hfind
          refine .inl
            ⟨fun hknown => ?_, _, List.mem_cons_of_mem _ (List.mem_map_of_mem hmem), rfl, rfl⟩
          rw [hknown.1 set hmem] at hunknown
          cases hunknown
      have hknown : KnownColumns (columnNames schema) sets := by
        intro set hmem
        have hnone := List.find?_eq_none.mp ‹_› set hmem
        simpa using hnone
      split at hexec
      · next htarget =>
          cases hexec
          exact .inl ⟨fun hknown => hknown.2 htarget, _, List.mem_cons_self, rfl, rfl⟩
      · next id htarget =>
          obtain ⟨key, hkey, hexec⟩ := Option.bind_eq_some_iff.mp hexec
          refine .inr ⟨id, key, hknown, htarget, hkey, ?_⟩
          cases hrow : db.get key with
          | none =>
              rw [hrow] at hexec
              cases hexec
              refine ⟨.missed (rewrittenRow_of_none hrow) rfl, ?_⟩
              exact not_refuses_update "Error: Row with id=" rfl
                ⟨_, by rw [CStr.val_append, CStr.val_append, List.append_assoc]⟩ (by decide)
                (by decide)
          | some rowVal =>
              rw [hrow] at hexec
              obtain ⟨values, hread, hexec⟩ := Option.bind_eq_some_iff.mp hexec
              obtain ⟨j, hprobe, hentry, hrewritten⟩ := rewrittenRow_of_some hrow
              rw [hread] at hrewritten
              cases values with
              | none =>
                  cases hexec
                  refine ⟨.missed hrewritten rfl, ?_⟩
                  exact not_refuses_update "Error: Could not deserialize row data.\n" rfl
                    ⟨[], (List.append_nil _).symm⟩ (by decide) (by decide)
              | some values =>
                  obtain ⟨data, hdata, hexec⟩ := Option.bind_eq_some_iff.mp hexec
                  cases hexec
                  refine ⟨.rewrote j rowVal values data hentry hrewritten hread hdata ?_, ?_⟩
                  · have hlogged : (txnLogUpdate db tableName key rowVal.data).store = db.store :=
                      store_pushOperation db _
                    change
                      (kvPut (txnLogUpdate db tableName key rowVal.data).store key _).entries = _
                    rw [hlogged, entries_kvPut, insert_of_hit hprobe]
                  · exact not_refuses_update "Updated 1 row in '"
                      (congrArg (· ++ _) (out_pushOperation db _))
                      ⟨tableName.val ++ _, by
                        rw [CStr.val_append, CStr.val_append, List.append_assoc]⟩
                      (by decide) (by decide)

theorem update_exact_iff (hexec : executeUpdate db ctx tableName sets whereClause = some db') :
    (∃ message ∈ updateRefusals tableName sets, Refuses db db' message) ∨
        ChangesExactly db.store db'.store
          (conditionScan db.store ctx.currentDb tableName whereClause)
          ((tableSchema db.store ctx.currentDb tableName).elim [] columnNames) sets ↔
      UpdateFits db.store ctx tableName sets whereClause := by
  rcases update_cases hexec with ⟨htable, hstore⟩ | ⟨schema, htable, hrest⟩
  · refine iff_of_true (.inr ?_) fun schema id key hschema => ?_
    · rw [htable, hstore]
      refine (changesExactly_unchanged (CStr.lit "") rfl).mpr ⟨fun i row _ => .inr ?_, ?_⟩
      · intro j
        -- no name is known, so no column gets a value
        have hnone : setValue [] sets j = none := by simp [setValue]
        simp [hnone]
      · intro i values htarget
        cases htarget
    · rw [htable] at hschema
      cases hschema
  · rw [htable]
    rcases hrest with ⟨hunfit, hrefuses⟩ |
      ⟨id, key, hknown, htarget, hkey, hrewrites, hspoke⟩
    · refine iff_of_true (.inl hrefuses) fun schema' id key hschema hknown htarget => ?_
      cases htable.symm.trans hschema
      exact absurd ⟨hknown, by rw [htarget]; exact Option.some_ne_none id⟩ hunfit
    · have hrefuses : ¬ ∃ message ∈ updateRefusals tableName sets, Refuses db db' message := by
        rintro ⟨message, hmem, hrefuses⟩
        exact hspoke message hmem hrefuses
      have hfits : UpdateFits db.store ctx tableName sets whereClause ↔
          RewriteFits db.store (conditionScan db.store ctx.currentDb tableName whereClause)
            (columnNames schema) sets key (rewrittenRow db.store key) := by
        constructor
        · intro h
          exact h schema id key htable hknown htarget hkey
        · intro h schema' id' key' htable' _ htarget' hkey'
          cases htable.symm.trans htable'
          cases htarget.symm.trans htarget'
          cases hkey.symm.trans hkey'
          exact h
      rw [or_iff_right hrefuses, hfits]
      cases hrewrites with
      | missed hnone hstore =>
          rw [hnone]
          exact changesExactly_unchanged key (congrArg KVStore.entries hstore)
      | rewrote j val values data hentry htarget hread hdata hstore =>
          rw [htarget]
          exact changesExactly_rewritten hentry hread hdata hstore

end Update

/-! ## Both statements -/

/-- A DELETE refuses, or removes exactly the selected rows. -/
def DeletesSelected (db db' : Db n) (ctx : SessionContext) (tableName : CStr)
    (whereClause : Option ASTExpr) : Prop :=
  Refuses db db' deleteRefusal ∨
    RemovesExactly db.store db'.store
      (conditionScan db.store ctx.currentDb tableName whereClause)

/-- An UPDATE refuses, or sets exactly the columns of its SET list in exactly the selected rows. -/
def UpdatesSelected (db db' : Db n) (ctx : SessionContext) (tableName : CStr)
    (sets : List (CStr × CStr)) (whereClause : Option ASTExpr) : Prop :=
  (∃ message ∈ updateRefusals tableName sets, Refuses db db' message) ∨
    ChangesExactly db.store db'.store
      (conditionScan db.store ctx.currentDb tableName whereClause)
      ((tableSchema db.store ctx.currentDb tableName).elim [] columnNames) sets

/-- DELETE and UPDATE touch exactly the rows their condition selects if and only if the key they
build from it is the key of the one such row. -/
theorem touchesSelected_iff (db db' : Db n) (ctx : SessionContext) (tableName : CStr)
    (whereClause : Option ASTExpr) :
    (executeDelete db ctx tableName whereClause = some db' →
        (DeletesSelected db db' ctx tableName whereClause ↔
          DeleteFits db.store ctx tableName whereClause)) ∧
      ∀ sets, executeUpdate db ctx tableName sets whereClause = some db' →
        (UpdatesSelected db db' ctx tableName sets whereClause ↔
          UpdateFits db.store ctx tableName sets whereClause) :=
  ⟨delete_exact_iff, fun _ => update_exact_iff⟩

theorem touchesSelected_tableDb :
    ∃ deleted updated,
      executeDelete tableDb publicSession (CStr.lit "t") (idIs "1") = some deleted ∧
      executeUpdate tableDb publicSession (CStr.lit "t") [(CStr.lit "v", CStr.lit "b")]
        (idIs "1") = some updated ∧
      (DeletesSelected tableDb deleted publicSession (CStr.lit "t") (idIs "1") ↔
        DeleteFits tableDb.store publicSession (CStr.lit "t") (idIs "1")) ∧
      (UpdatesSelected tableDb updated publicSession (CStr.lit "t")
          [(CStr.lit "v", CStr.lit "b")] (idIs "1") ↔
        UpdateFits tableDb.store publicSession (CStr.lit "t") [(CStr.lit "v", CStr.lit "b")]
          (idIs "1")) := by
  obtain ⟨deleted, hdeleted⟩ := Option.isSome_iff_exists.mp
    (show (executeDelete tableDb publicSession (CStr.lit "t") (idIs "1")).isSome = true by
      decide +kernel)
  obtain ⟨updated, hupdated⟩ := Option.isSome_iff_exists.mp
    (show (executeUpdate tableDb publicSession (CStr.lit "t") [(CStr.lit "v", CStr.lit "b")]
      (idIs "1")).isSome = true by decide +kernel)
  exact ⟨deleted, updated, hdeleted, hupdated,
    (touchesSelected_iff tableDb deleted publicSession _ _).1 hdeleted,
    (touchesSelected_iff tableDb updated publicSession _ _).2 _ hupdated⟩

/-- A DELETE by `id` removes the row of that name and leaves the one of that id. -/
theorem delete_hits_other_row :
    ∃ db', executeDelete nameKeyedDb publicSession (CStr.lit "t") (idIs "5") = some db' ∧
      matchingRows nameKeyedDb.store
          (conditionScan nameKeyedDb.store (CStr.lit "public") (CStr.lit "t") (idIs "5")) =
        [[CStr.lit "a", CStr.lit "5"]] ∧
      matchingRows db'.store (conditionScan db'.store (CStr.lit "public") (CStr.lit "t") none) =
        [[CStr.lit "a", CStr.lit "5"]] ∧
      ¬ DeletesSelected nameKeyedDb db' publicSession (CStr.lit "t") (idIs "5") := by
  have hview : (executeDelete nameKeyedDb publicSession (CStr.lit "t") (idIs "5")).map
      (fun db' =>
        (matchingRows db'.store
            (conditionScan db'.store (CStr.lit "public") (CStr.lit "t") none),
          decide (db'.out = nameKeyedDb.out ++ [deleteRefusal]),
          decide (∀ i, db'.store.entries i =
            if (slotRow nameKeyedDb.store (conditionScan nameKeyedDb.store (CStr.lit "public")
              (CStr.lit "t") (idIs "5")) i).isSome then none else nameKeyedDb.store.entries i))) =
      some ([[CStr.lit "a", CStr.lit "5"]], false, false) := by decide +kernel
  obtain ⟨db', hexec, hfound⟩ := Option.map_eq_some_iff.mp hview
  simp only [Prod.mk.injEq, decide_eq_false_iff_not] at hfound
  obtain ⟨hrows, hout, hslots⟩ := hfound
  refine ⟨db', hexec, by decide +kernel, hrows, ?_⟩
  rintro (hrefuses | hremoves)
  · exact hout hrefuses.1
  · exact hslots hremoves.slots

end Executor
end InventixDB
