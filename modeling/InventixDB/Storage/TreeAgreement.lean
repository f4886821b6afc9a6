import InventixDB.Storage.MapRefinement

/-!
# TreeAgreement — the cells of the B+tree beside the hash store

`kv_put` copies every row to the tree and never looks for a cell its key has already, and
`kv_delete` does not touch the tree.  So the two agree exactly as long as every row put has an id
of its own, the leaf has room for it, and no row is deleted.
-/

namespace InventixDB
namespace Storage

open Lib.OpenAddressing

/-! ## Searching the leaf -/

section Search

variable {cells : List Cell} {key : UInt32} {table : BTreeTable} {c : Cell}

/-- The keys of the cells grow. -/
def SortedCells (cells : List Cell) : Prop :=
  cells.Pairwise fun a b => a.key < b.key

theorem SortedCells.lt (hs : SortedCells cells) {i j : Nat} {a b : Cell} (hij : i < j)
    (hi : cells[i]? = some a) (hj : cells[j]? = some b) : a.key < b.key := by
  obtain ⟨hilt, rfl⟩ := List.getElem?_eq_some_iff.mp hi
  obtain ⟨hjlt, rfl⟩ := List.getElem?_eq_some_iff.mp hj
  exact List.pairwise_iff_getElem.mp hs i j hilt hjlt hij

/-- Where a key stands or would have to be put. -/
structure Found (cells : List Cell) (key : UInt32) (r : Nat) : Prop where
  le : r ≤ cells.length
  before : ∀ i c, i < r → cells[i]? = some c → c.key < key
  after : ∀ i c, r ≤ i → cells[i]? = some c → c.key = key ∧ i = r ∨ key < c.key

theorem tableFindLoop_found (hs : SortedCells cells) (fuel lo hi : Nat) (hfuel : hi - lo < fuel)
    (hle : lo ≤ hi) (hhi : hi ≤ cells.length)
    (hbefore : ∀ i c, i < lo → cells[i]? = some c → c.key < key)
    (hafter : ∀ i c, hi ≤ i → cells[i]? = some c → key < c.key) :
    Found cells key (tableFindLoop cells key fuel lo hi) := by
  induction fuel generalizing lo hi with
  | zero => exact absurd hfuel (Nat.not_lt_zero _)
  | succ fuel ih =>
      rw [tableFindLoop]
      by_cases hempty : hi = lo
      · rw [if_pos hempty]
        exact ⟨hempty ▸ hhi, hbefore, fun i c hi' hc => Or.inr (hafter i c (hempty ▸ hi') hc)⟩
      · rw [if_neg hempty]
        have hmid : (lo + hi) / 2 < cells.length := by omega
        obtain ⟨c, hc⟩ : ∃ c, cells[(lo + hi) / 2]? = some c :=
          ⟨_, List.getElem?_eq_getElem hmid⟩
        dsimp only
        rw [hc]
        dsimp only
        by_cases heq : key = c.key
        · rw [if_pos heq]
          refine ⟨Nat.le_of_lt hmid, fun i a hi' ha => ?_, fun i a hi' ha => ?_⟩
          · rw [heq]
            exact hs.lt hi' ha hc
          · rcases Nat.eq_or_lt_of_le hi' with rfl | hlt
            · rw [hc] at ha
              cases ha
              exact Or.inl ⟨heq.symm, rfl⟩
            · rw [heq]
              exact Or.inr (hs.lt hlt hc ha)
        · rw [if_neg heq]
          by_cases hlt : key < c.key
          · rw [if_pos hlt]
            refine ih lo ((lo + hi) / 2) (by omega) (by omega) (by omega) hbefore ?_
            intro i a hi' ha
            rcases Nat.eq_or_lt_of_le hi' with rfl | hmore
            · rw [hc] at ha
              cases ha
              exact hlt
            · exact UInt32.lt_trans hlt (hs.lt hmore hc ha)
          · rw [if_neg hlt]
            have hgt : c.key < key :=
              UInt32.lt_of_le_of_ne (UInt32.not_lt.mp hlt) (Ne.symm heq)
            refine ih ((lo + hi) / 2 + 1) hi (by omega) (by omega) hhi ?_ hafter
            intro i a hi' ha
            rcases Nat.eq_or_lt_of_le (Nat.le_of_lt_succ hi') with rfl | hless
            · rw [hc] at ha
              cases ha
              exact hgt
            · exact UInt32.lt_trans (hs.lt hless ha hc) hgt

theorem tableFind_found (hs : SortedCells table.cells) (key : UInt32) :
    Found table.cells key (tableFind table key) :=
  tableFindLoop_found hs _ 0 table.cells.length (by omega) (Nat.zero_le _) le_rfl
    (fun i _ hi => absurd hi (Nat.not_lt_zero i))
    (fun i _ hi hc => by
      rw [List.getElem?_eq_none hi] at hc
      cases hc)

/-- A key that has a cell is found. -/
theorem getElem?_tableFind (hs : SortedCells table.cells) (hc : c ∈ table.cells) :
    table.cells[tableFind table c.key]? = some c := by
  have hfound := tableFind_found hs c.key
  obtain ⟨i, hi⟩ := List.getElem?_of_mem hc
  rcases Nat.lt_or_ge i (tableFind table c.key) with hlt | hge
  · exact absurd (hfound.before i c hlt hi) (UInt32.lt_irrefl _)
  · rcases hfound.after i c hge hi with ⟨-, rfl⟩ | hlt
    · exact hi
    · exact absurd hlt (UInt32.lt_irrefl _)

theorem pairwise_insertIdx {α : Type*} {R : α → α → Prop} {l : List α} {a : α}
    (hl : l.Pairwise R) (i : Nat) (hbefore : ∀ j b, j < i → l[j]? = some b → R b a)
    (hafter : ∀ j b, i ≤ j → l[j]? = some b → R a b) : (l.insertIdx i a).Pairwise R := by
  induction l generalizing i with
  | nil =>
      cases i with
      | zero => exact List.pairwise_singleton _ _
      | succ i => exact List.Pairwise.nil
  | cons b l ih =>
      obtain ⟨hb, hl'⟩ := List.pairwise_cons.mp hl
      cases i with
      | zero =>
          refine List.pairwise_cons.mpr ⟨fun c hc => ?_, hl⟩
          obtain ⟨j, hj⟩ := List.getElem?_of_mem hc
          exact hafter j c (Nat.zero_le j) hj
      | succ i =>
          rw [List.insertIdx_succ_cons]
          refine List.pairwise_cons.mpr ⟨fun c hc => ?_, ih hl' i ?_ ?_⟩
          · rcases List.eq_or_mem_of_mem_insertIdx hc with rfl | hc
            · exact hbefore 0 b (Nat.succ_pos i) rfl
            · exact hb c hc
          · exact fun j c hj hc => hbefore (j + 1) c (Nat.succ_lt_succ hj) hc
          · exact fun j c hj hc => hafter (j + 1) c (Nat.succ_le_succ hj) hc

/-- A key without a cell goes where it keeps the order. -/
theorem SortedCells.insertIdx (hs : SortedCells table.cells)
    (hfresh : ∀ a ∈ table.cells, a.key ≠ c.key) :
    SortedCells (table.cells.insertIdx (tableFind table c.key) c) := by
  have hfound := tableFind_found hs c.key
  refine pairwise_insertIdx hs _ hfound.before fun i a hi ha => ?_
  exact (hfound.after i a hi ha).resolve_left fun h =>
    hfresh a (List.mem_of_getElem? ha) h.1

end Search

/-! ## Row keys -/

/-- A key `TBL:<table>:<id>` as `generate_key_table` writes it, with a positive `int`. -/
structure RowKey where
  table : CStr
  id : Nat
  pos : 0 < id
  int : id < 2 ^ 31

def RowKey.toKey (key : RowKey) : CStr :=
  CStr.lit "TBL:" ++ key.table ++ CStr.lit ":" ++ CStr.ofInt key.id

/-- The key of the cell: the id as a `uint32_t`. -/
def RowKey.cellKey (key : RowKey) : UInt32 :=
  UInt32.ofNat key.id

theorem RowKey.startsWith_toKey (key : RowKey) :
    CStr.startsWith (CStr.lit "TBL:") key.toKey = true := by
  rw [CStr.startsWith, List.isPrefixOf_iff_prefix, RowKey.toKey, CStr.val_append, CStr.val_append,
    CStr.val_append, List.append_assoc, List.append_assoc]
  exact List.prefix_append _ _

theorem RowKey.afterLast_toKey (key : RowKey) :
    CStr.afterLast 58 key.toKey = some (CStr.ofInt key.id) := by
  have hdigits : (58 : UInt8) ∉ (CStr.ofInt key.id).val := by
    rw [CStr.val_ofInt, if_neg (by omega), List.nil_append]
    exact fun hmem => absurd (CStr.isDigit_of_mem_decimal hmem) (by decide)
  have hval : key.toKey.val.reverse = (CStr.ofInt key.id).val.reverse ++
      58 :: ((CStr.lit "TBL:").val ++ key.table.val).reverse := by
    have hcolon : (CStr.lit ":").val = [58] := by decide
    rw [RowKey.toKey, CStr.val_append, CStr.val_append, CStr.val_append, hcolon,
      List.append_assoc, List.reverse_append, List.singleton_append, List.reverse_cons,
      List.append_assoc, List.singleton_append]
  have hmem : (58 : UInt8) ∈ key.toKey.val := by
    rw [← List.mem_reverse, hval]
    exact List.mem_append_right _ List.mem_cons_self
  rw [CStr.afterLast, if_pos hmem, hval, List.takeWhile_append_of_pos]
  · rw [List.takeWhile_cons_of_neg (by decide), List.append_nil, List.reverse_reverse,
      CStr.ofBytes_val]
  · intro b hb
    refine decide_eq_true fun heq => hdigits ?_
    rw [← heq]
    exact List.mem_reverse.mp hb

theorem RowKey.toNat_cellKey (key : RowKey) : key.cellKey.toNat = key.id := by
  have hint := key.int
  rw [RowKey.cellKey, UInt32.toNat_ofNat']
  omega

/-- `kv_put` inserts a cell with the id of the key. -/
theorem btreePut_rowKey (table : BTreeTable) (key : RowKey) (row : List UInt8) :
    btreePut table key.toKey { data := row, type := .row } =
      leafNodeInsert table (tableFind table key.cellKey) key.cellKey (rowBuffer row) := by
  have hid : UInt32.ofInt (CStr.atoi (CStr.ofInt key.id)) = key.cellKey := by
    have hint := key.int
    rw [CStr.atoi_ofInt hint, UInt32.ofInt, RowKey.cellKey]
    congr 1
    omega
  have hpos : key.cellKey > 0 := by
    rw [gt_iff_lt, UInt32.lt_iff_toNat_lt, key.toNat_cellKey]
    exact key.pos
  rw [btreePut, key.startsWith_toKey, key.afterLast_toKey]
  dsimp only
  rw [hid, if_pos hpos]
  rfl

theorem RowKey.cellKey_of_toKey {key key' : RowKey} (h : key.toKey = key'.toKey) :
    key.cellKey = key'.cellKey := by
  have hlast := congrArg (CStr.afterLast 58) h
  rw [key.afterLast_toKey, key'.afterLast_toKey] at hlast
  have hatoi := congrArg CStr.atoi (Option.some_inj.mp hlast)
  rw [CStr.atoi_ofInt key.int, CStr.atoi_ofInt key'.int] at hatoi
  rw [RowKey.cellKey, RowKey.cellKey, Int.ofNat_inj.mp hatoi]

/-! ## Sequences of calls -/

inductive RowCall
  | put (key : RowKey) (row : List UInt8)
  | delete (key : RowKey)

variable {n : Nat} [NeZero n]

def RowCall.exec (store : KVStore n) : RowCall → KVStore n
  | put key row => kvPut store key.toKey { data := row, type := .row }
  | delete key => kvDelete store key.toKey

def runRows (store : KVStore n) (calls : List RowCall) : KVStore n :=
  calls.foldl RowCall.exec store

/-- The row last put under the key, deleted since or not. -/
def lastRow (calls : List RowCall) (key : RowKey) : Option (List UInt8) :=
  calls.foldl
    (fun last call =>
      match call with
      | .put key' row => if key'.toKey = key.toKey then some row else last
      | .delete _ => last) none

/-- The cell `table_find` reaches for the key's id holds the key's row. -/
def Reaches (store : KVStore n) (calls : List RowCall) (key : RowKey) : Prop :=
  ∃ row, lastRow calls key = some row ∧
    store.btreeTable.cells[tableFind store.btreeTable key.cellKey]? =
      some { key := key.cellKey, value := rowBuffer row }

/-- The tree holds the live rows: each one is reached, in the only cell with its id, which is no
other row's. -/
structure TreeAgrees (store : KVStore n) (calls : List RowCall) : Prop where
  reaches_iff : ∀ key, Reaches store calls key ↔ kvGet store key.toKey ≠ none
  one_cell : ∀ key : RowKey, kvGet store key.toKey ≠ none →
    (store.btreeTable.cells.map Cell.key).count key.cellKey = 1
  own_cell : ∀ key key' : RowKey, kvGet store key.toKey ≠ none → kvGet store key'.toKey ≠ none →
    key.cellKey = key'.cellKey → key.toKey = key'.toKey

/-- A put of a row whose id has no cell yet, into a leaf with room, or into a full leaf of a live
row over one with the same cell; a delete of a row that is not live. -/
def RowCall.Fits (store : KVStore n) : RowCall → Prop
  | put key row =>
      if store.btreeTable.cells.length < leafNodeMaxCells then
        ∀ cell ∈ store.btreeTable.cells, cell.key ≠ key.cellKey
      else
        kvGet store key.toKey ≠ none ∧
          { key := key.cellKey, value := rowBuffer row } ∈ store.btreeTable.cells
  | delete key => kvGet store key.toKey = none

def RowsFit : KVStore n → List RowCall → Prop
  | _, [] => True
  | store, call :: calls => call.Fits store ∧ RowsFit (call.exec store) calls

/-! ## One call -/

section Calls

variable {store : KVStore n} {calls : List RowCall} {call : RowCall} {key key' : RowKey}
  {row : List UInt8} {k : CStr}

omit [NeZero n] in
@[simp]
theorem btreeTable_kvSnapshotInternal (store : KVStore n) :
    (kvSnapshotInternal store).btreeTable = store.btreeTable := by
  unfold kvSnapshotInternal
  split <;> rfl

omit [NeZero n] in
@[simp]
theorem btreeTable_kvAppendLog (store : KVStore n) (record : LogRecord) :
    (kvAppendLog store record).btreeTable = store.btreeTable := by
  unfold kvAppendLog
  split
  · dsimp only
    split
    · rw [btreeTable_kvSnapshotInternal]
    · rfl
  · rfl

theorem btreeTable_put (store : KVStore n) (key : RowKey) (row : List UInt8) :
    ((RowCall.put key row).exec store).btreeTable =
      leafNodeInsert store.btreeTable (tableFind store.btreeTable key.cellKey) key.cellKey
        (rowBuffer row) := by
  rw [← btreePut_rowKey]
  simp [RowCall.exec, kvPut, kvPutInternal]

/-- A delete leaves the tree alone. -/
theorem btreeTable_delete (store : KVStore n) (key : RowKey) :
    ((RowCall.delete key).exec store).btreeTable = store.btreeTable := by
  rw [RowCall.exec, kvDelete]
  split
  · rw [btreeTable_kvAppendLog]
  · rfl

theorem entries_put (store : KVStore n) (key : RowKey) (row : List UInt8) :
    ((RowCall.put key row).exec store).entries =
      insert CStr.slot store.entries key.toKey { data := row, type := .row } :=
  entries_kvPut store key.toKey _

theorem lastRow_put (calls : List RowCall) (key key' : RowKey) (row : List UInt8) :
    lastRow (calls ++ [.put key' row]) key =
      if key'.toKey = key.toKey then some row else lastRow calls key := by
  rw [lastRow, List.foldl_append]
  rfl

theorem lastRow_delete (calls : List RowCall) (key key' : RowKey) :
    lastRow (calls ++ [.delete key']) key = lastRow calls key := by
  rw [lastRow, List.foldl_append]
  rfl

/-- The tree and the hash store in step. -/
structure InStepRows (store : KVStore n) (calls : List RowCall) : Prop where
  intact : Intact CStr.slot store.entries
  row_keys : ∀ k v, lookup CStr.slot store.entries k = some v → ∃ key : RowKey, key.toKey = k
  sorted : SortedCells store.btreeTable.cells
  small : store.btreeTable.cells.length ≤ leafNodeMaxCells
  cell_of_row : ∀ (key : RowKey) v, kvGet store key.toKey = some v →
    { key := key.cellKey, value := rowBuffer v.data } ∈ store.btreeTable.cells
  row_of_cell : ∀ cell ∈ store.btreeTable.cells,
    ∃ key : RowKey, kvGet store key.toKey ≠ none ∧ key.cellKey = cell.key
  own_cell : ∀ key key' : RowKey, kvGet store key.toKey ≠ none → kvGet store key'.toKey ≠ none →
    key.cellKey = key'.cellKey → key.toKey = key'.toKey
  last : ∀ key : RowKey, (kvGet store key.toKey).map Value.data = lastRow calls key

theorem InStepRows.live_iff (h : InStepRows store calls) (key : RowKey) :
    kvGet store key.toKey ≠ none ↔ ∃ row, lastRow calls key = some row := by
  rw [← h.last key, Option.ne_none_iff_exists']
  constructor
  · rintro ⟨v, hv⟩
    exact ⟨v.data, by rw [hv]; rfl⟩
  · rintro ⟨row, hrow⟩
    obtain ⟨v, hv, -⟩ := Option.map_eq_some_iff.mp hrow
    exact ⟨v, hv⟩

theorem InStepRows.agrees (h : InStepRows store calls) : TreeAgrees store calls where
  reaches_iff key := by
    refine ⟨fun ⟨row, hrow, _⟩ => (h.live_iff key).mpr ⟨row, hrow⟩, fun hlive => ?_⟩
    obtain ⟨v, hv⟩ := Option.ne_none_iff_exists'.mp hlive
    refine ⟨v.data, ?_, getElem?_tableFind h.sorted (h.cell_of_row key v hv)⟩
    rw [← h.last key, hv]
    rfl
  one_cell key hlive := by
    obtain ⟨v, hv⟩ := Option.ne_none_iff_exists'.mp hlive
    have hnodup : (store.btreeTable.cells.map Cell.key).Nodup :=
      List.pairwise_map.mpr (h.sorted.imp fun hlt heq => by
        rw [heq] at hlt
        exact UInt32.lt_irrefl _ hlt)
    exact List.count_eq_one_of_mem hnodup (List.mem_map_of_mem (h.cell_of_row key v hv))
  own_cell := h.own_cell

/-- Fewer rows than slots are live, so there is room in the store. -/
theorem InStepRows.not_full (h : InStepRows store calls) (hn : leafNodeMaxCells < n) (k : CStr) :
    probe CStr.slot store.entries k ≠ .full := by
  intro hfull
  have hne : Nonempty RowKey := ⟨⟨CStr.lit "t", 1, by decide, by decide⟩⟩
  choose! owner howner using h.row_of_cell
  have hcard := h.intact.card_of_full hfull
    (store.btreeTable.cells.map fun cell => (owner cell).toKey).toFinset (fun k' v hv => by
      obtain ⟨key, rfl⟩ := h.row_keys k' v hv
      have hcell := h.cell_of_row key v hv
      obtain ⟨hlive, hkey⟩ := howner _ hcell
      rw [List.mem_toFinset]
      refine List.mem_map.mpr ⟨_, hcell, h.own_cell _ _ hlive ?_ hkey⟩
      rw [kvGet, hv]
      exact Option.some_ne_none v)
  have hle := List.toFinset_card_le
    (store.btreeTable.cells.map fun cell => (owner cell).toKey)
  rw [List.length_map] at hle
  have hsmall := h.small
  omega

theorem InStepRows.kvGet_put (h : InStepRows store calls) (hn : leafNodeMaxCells < n)
    (key : RowKey) (row : List UInt8) (k : CStr) :
    kvGet ((RowCall.put key row).exec store) k =
      if k = key.toKey then some { data := row, type := .row } else kvGet store k := by
  rw [kvGet, entries_put, h.intact.lookup_insert (h.not_full hn _), Function.update_apply]
  rfl

theorem InStepRows.live_put (h : InStepRows store calls) (hn : leafNodeMaxCells < n)
    (key : RowKey) (row : List UInt8) (k : CStr) :
    kvGet ((RowCall.put key row).exec store) k ≠ none ↔ k = key.toKey ∨ kvGet store k ≠ none := by
  rw [h.kvGet_put hn]
  split
  · next hk => exact ⟨fun _ => Or.inl hk, fun _ => Option.some_ne_none _⟩
  · next hk => exact ⟨Or.inr, fun hor => hor.resolve_left hk⟩

theorem cells_put_of_room (hroom : store.btreeTable.cells.length < leafNodeMaxCells)
    (key : RowKey) (row : List UInt8) :
    ((RowCall.put key row).exec store).btreeTable.cells =
      store.btreeTable.cells.insertIdx (tableFind store.btreeTable key.cellKey)
        { key := key.cellKey, value := rowBuffer row } := by
  rw [btreeTable_put, leafNodeInsert, if_neg (by omega)]

theorem cells_put_of_full (hfull : ¬ store.btreeTable.cells.length < leafNodeMaxCells)
    (key : RowKey) (row : List UInt8) :
    ((RowCall.put key row).exec store).btreeTable.cells = store.btreeTable.cells := by
  rw [btreeTable_put, leafNodeInsert, if_pos (by omega)]

theorem InStepRows.mem_cells_put (h : InStepRows store calls)
    (hroom : store.btreeTable.cells.length < leafNodeMaxCells) {c : Cell} :
    c ∈ ((RowCall.put key row).exec store).btreeTable.cells ↔
      c = { key := key.cellKey, value := rowBuffer row } ∨ c ∈ store.btreeTable.cells := by
  rw [cells_put_of_room hroom]
  exact List.mem_insertIdx (tableFind_found h.sorted key.cellKey).le

theorem InStepRows.put (h : InStepRows store calls) (hn : leafNodeMaxCells < n)
    (hfits : (RowCall.put key row).Fits store) :
    InStepRows ((RowCall.put key row).exec store) (calls ++ [.put key row]) := by
  have hget := h.kvGet_put hn key row
  have hlive := h.live_put hn key row
  have hintact : Intact CStr.slot ((RowCall.put key row).exec store).entries := by
    rw [entries_put]
    exact h.intact.insert _ _
  have hkeys : ∀ k v, lookup CStr.slot ((RowCall.put key row).exec store).entries k = some v →
      ∃ key : RowKey, key.toKey = k := by
    intro k v hk
    rcases (hlive k).mp (by rw [kvGet, hk]; exact Option.some_ne_none v) with rfl | hold
    · exact ⟨key, rfl⟩
    · obtain ⟨w, hw⟩ := Option.ne_none_iff_exists'.mp hold
      exact h.row_keys k w hw
  have hlast : ∀ key' : RowKey,
      (kvGet ((RowCall.put key row).exec store) key'.toKey).map Value.data =
        lastRow (calls ++ [.put key row]) key' := by
    intro key'
    rw [hget, lastRow_put]
    by_cases hkey : key'.toKey = key.toKey
    · rw [if_pos hkey, if_pos hkey.symm]
      rfl
    · rw [if_neg hkey, if_neg (Ne.symm hkey)]
      exact h.last key'
  rw [RowCall.Fits] at hfits
  split at hfits
  · -- the id gets a cell of its own
    next hroom =>
      have hmem := @InStepRows.mem_cells_put _ _ _ _ key row h hroom
      refine ⟨hintact, hkeys, ?_, ?_, fun key' v hv => ?_, fun cell hcell => ?_, ?_, hlast⟩
      · rw [cells_put_of_room hroom]
        exact h.sorted.insertIdx hfits
      · rw [cells_put_of_room hroom, List.length_insertIdx_of_le_length
          (tableFind_found h.sorted key.cellKey).le]
        exact hroom
      · rw [hget] at hv
        refine hmem.mpr ?_
        split at hv
        · next hkey =>
            obtain rfl := Option.some_inj.mp hv
            exact Or.inl (by rw [RowKey.cellKey_of_toKey hkey])
        · exact Or.inr (h.cell_of_row key' v hv)
      · rcases hmem.mp hcell with rfl | hold
        · exact ⟨key, (hlive _).mpr (Or.inl rfl), rfl⟩
        · obtain ⟨key', hlive', hkey'⟩ := h.row_of_cell cell hold
          exact ⟨key', (hlive _).mpr (Or.inr hlive'), hkey'⟩
      · have hother : ∀ key' : RowKey, kvGet store key'.toKey ≠ none →
            key'.cellKey ≠ key.cellKey := by
          intro key' hlive'
          obtain ⟨v, hv⟩ := Option.ne_none_iff_exists'.mp hlive'
          exact hfits _ (h.cell_of_row key' v hv)
        intro key₁ key₂ h₁ h₂ heq
        rcases (hlive _).mp h₁ with hk₁ | h₁
        · rcases (hlive _).mp h₂ with hk₂ | h₂
          · rw [hk₁, hk₂]
          · exact absurd (heq.symm.trans (RowKey.cellKey_of_toKey hk₁)) (hother key₂ h₂)
        · rcases (hlive _).mp h₂ with hk₂ | h₂
          · exact absurd (heq.trans (RowKey.cellKey_of_toKey hk₂)) (hother key₁ h₁)
          · exact h.own_cell key₁ key₂ h₁ h₂ heq
  · -- nothing is written, and the cell is as the row would have it
    next hfull =>
      obtain ⟨hkey, hcell⟩ := hfits
      have hcells := cells_put_of_full hfull key row
      have hsame : ∀ k, kvGet ((RowCall.put key row).exec store) k ≠ none →
          kvGet store k ≠ none := by
        intro k hk
        rcases (hlive k).mp hk with rfl | hold
        · exact hkey
        · exact hold
      refine ⟨hintact, hkeys, ?_, ?_, fun key' v hv => ?_, fun cell hmem => ?_,
        fun key₁ key₂ h₁ h₂ => h.own_cell key₁ key₂ (hsame _ h₁) (hsame _ h₂), hlast⟩
      · rw [hcells]
        exact h.sorted
      · rw [hcells]
        exact h.small
      · rw [hcells]
        rw [hget] at hv
        split at hv
        · next heq =>
            obtain rfl := Option.some_inj.mp hv
            rw [RowKey.cellKey_of_toKey heq]
            exact hcell
        · exact h.cell_of_row key' v hv
      · rw [hcells] at hmem
        obtain ⟨key', hlive', hkey'⟩ := h.row_of_cell cell hmem
        exact ⟨key', (hlive _).mpr (Or.inr hlive'), hkey'⟩

theorem InStepRows.delete (h : InStepRows store calls) (hdead : kvGet store key.toKey = none) :
    InStepRows ((RowCall.delete key).exec store) (calls ++ [.delete key]) := by
  have hentries : ((RowCall.delete key).exec store).entries = store.entries := by
    rw [RowCall.exec, entries_kvDelete]
    exact erase_of_lookup_none hdead
  have hget : ∀ k, kvGet ((RowCall.delete key).exec store) k = kvGet store k := by
    intro k
    rw [kvGet, hentries, kvGet]
  have htree := btreeTable_delete store key
  constructor
  case intact => rw [hentries]; exact h.intact
  case row_keys => rw [hentries]; exact h.row_keys
  case sorted => rw [htree]; exact h.sorted
  case small => rw [htree]; exact h.small
  case cell_of_row =>
    intro key' v hv
    rw [hget] at hv
    rw [htree]
    exact h.cell_of_row key' v hv
  case row_of_cell =>
    intro cell hcell
    rw [htree] at hcell
    obtain ⟨key', hlive, hkey⟩ := h.row_of_cell cell hcell
    exact ⟨key', by rwa [hget], hkey⟩
  case own_cell =>
    intro key₁ key₂ h₁ h₂
    rw [hget] at h₁ h₂
    exact h.own_cell key₁ key₂ h₁ h₂
  case last =>
    intro key'
    rw [hget, lastRow_delete]
    exact h.last key'

theorem InStepRows.exec (h : InStepRows store calls) (hn : leafNodeMaxCells < n)
    (hfits : call.Fits store) : InStepRows (call.exec store) (calls ++ [call]) := by
  cases call with
  | put key row => exact h.put hn hfits
  | delete key => exact h.delete hfits

/-- A call that does not fit sets the two apart. -/
theorem InStepRows.fits_of_agrees (h : InStepRows store calls) (hn : leafNodeMaxCells < n)
    (hagrees : TreeAgrees (call.exec store) (calls ++ [call])) : call.Fits store := by
  cases call with
  | put key row =>
      have hlive := h.live_put hn key row
      have hnew : kvGet ((RowCall.put key row).exec store) key.toKey ≠ none :=
        (hlive _).mpr (Or.inl rfl)
      rw [RowCall.Fits]
      split
      · -- a second cell with the id
        next hroom =>
          intro cell hcell hkey
          have hone := hagrees.one_cell key hnew
          have hperm := List.perm_insertIdx { key := key.cellKey, value := rowBuffer row }
            store.btreeTable.cells (tableFind_found h.sorted key.cellKey).le
          rw [cells_put_of_room hroom, (hperm.map Cell.key).count_eq, List.map_cons,
            List.count_cons_self] at hone
          have hmem : key.cellKey ∈ store.btreeTable.cells.map Cell.key :=
            hkey ▸ List.mem_map_of_mem hcell
          have hpos := List.count_pos_iff.mpr hmem
          omega
      · -- the row has no cell, or another row's
        next hfull =>
          have hcells := cells_put_of_full hfull key row
          obtain ⟨row', hlast, hreach⟩ := (hagrees.reaches_iff key).mpr hnew
          rw [lastRow_put, if_pos rfl] at hlast
          obtain rfl := Option.some_inj.mp hlast
          have hcell := List.mem_of_getElem? hreach
          rw [hcells] at hcell
          refine ⟨?_, hcell⟩
          obtain ⟨key', hlive', hkey'⟩ := h.row_of_cell _ hcell
          rw [← hagrees.own_cell key' key ((hlive _).mpr (Or.inr hlive')) hnew hkey']
          exact hlive'
  | delete key =>
      rw [RowCall.Fits]
      by_contra hlive
      -- the cell of the deleted row is still there
      obtain ⟨v, hv⟩ := Option.ne_none_iff_exists'.mp hlive
      refine (hagrees.reaches_iff key).mp ⟨v.data, ?_, ?_⟩ ?_
      · rw [lastRow_delete, ← h.last key, hv]
        rfl
      · rw [btreeTable_delete]
        exact getElem?_tableFind h.sorted (h.cell_of_row key v hv)
      · rw [RowCall.exec, kvGet, entries_kvDelete]
        exact lookup_erase_self

end Calls

/-! ## Whole runs -/

theorem InStepRows.agrees_iff {store : KVStore n} {done : List RowCall}
    (h : InStepRows store done) (hn : leafNodeMaxCells < n) (calls : List RowCall) :
    (∀ p, p <+: calls → TreeAgrees (runRows store p) (done ++ p)) ↔ RowsFit store calls := by
  induction calls generalizing store done with
  | nil =>
      refine ⟨fun _ => trivial, fun _ p hp => ?_⟩
      rw [List.prefix_nil.mp hp, List.append_nil]
      exact h.agrees
  | cons call calls ih =>
      constructor
      · intro hagrees
        have hfits : call.Fits store :=
          h.fits_of_agrees hn (hagrees [call] (List.prefix_append [call] calls))
        refine ⟨hfits, (ih (h.exec hn hfits)).mp fun p hp => ?_⟩
        have hcons := hagrees (call :: p) (List.prefix_cons_inj call |>.mpr hp)
        rwa [List.append_cons] at hcons
      · rintro ⟨hfits, hrest⟩ p hp
        cases p with
        | nil =>
            rw [List.append_nil]
            exact h.agrees
        | cons call' p =>
            obtain ⟨hcall, htail⟩ := List.cons_prefix_cons.mp hp
            rw [hcall, List.append_cons]
            exact (ih (h.exec hn hfits)).mpr hrest p htail

/-- From an empty store on, the tree agrees with the store all along exactly if every call fits. -/
theorem treeAgrees_iff (store : KVStore n) (hn : leafNodeMaxCells < n)
    (hentries : store.entries = empty) (hcells : store.btreeTable.cells = [])
    (calls : List RowCall) :
    (∀ p, p <+: calls → TreeAgrees (runRows store p) p) ↔ RowsFit store calls := by
  have hnone : ∀ k, lookup CStr.slot store.entries k = none := by
    rw [hentries]
    exact fun k => lookup_empty
  have hget : ∀ key : RowKey, kvGet store key.toKey = none := fun key => hnone _
  have hstart : InStepRows store [] := by
    constructor
    case intact => rw [hentries]; exact intact_empty
    case row_keys =>
      intro k v hk
      rw [hnone] at hk
      cases hk
    case sorted => rw [hcells]; exact List.Pairwise.nil
    case small => rw [hcells]; exact Nat.zero_le _
    case cell_of_row =>
      intro key v hv
      rw [hget] at hv
      cases hv
    case row_of_cell =>
      intro cell hcell
      rw [hcells] at hcell
      exact absurd hcell List.not_mem_nil
    case own_cell => exact fun key _ hlive => absurd (hget key) hlive
    case last =>
      intro key
      rw [hget]
      rfl
  have hiff := hstart.agrees_iff hn calls
  simpa only [List.nil_append] using hiff

/-- The first row of table `t`. -/
def firstRow : RowKey :=
  { table := CStr.lit "t", id := 1, pos := by decide, int := by decide }

/-- Two rows and a delete of one that is not there. -/
def twoRows : List RowCall :=
  [.put { firstRow with id := 2, pos := by decide, int := by decide } [65], .put firstRow [66],
    .delete { firstRow with id := 3, pos := by decide, int := by decide }]

theorem treeAgrees_iff_twoRows :
    (∀ p, p <+: twoRows → TreeAgrees (runRows defaultStore p) p) ↔
      RowsFit defaultStore twoRows :=
  treeAgrees_iff defaultStore (by decide) rfl rfl twoRows

/-- The first row of another table. -/
def otherTable : RowKey :=
  { firstRow with table := CStr.lit "u" }

def eightRows : List RowCall :=
  (List.finRange 8).map fun i : Fin 8 =>
    .put { firstRow with
      id := i.val + 1
      pos := Nat.succ_pos i.val
      int := lt_of_le_of_lt (Nat.succ_le_of_lt i.isLt) (by decide) } [65]

/-- A row rewritten, a row deleted, an id in two tables, and a row for which the leaf has no
room. -/
theorem kvPut_leaves_tree_behind :
    ¬ TreeAgrees (runRows defaultStore [.put firstRow [65], .put firstRow [66]])
      [.put firstRow [65], .put firstRow [66]] ∧
    ¬ TreeAgrees (runRows defaultStore [.put firstRow [65], .delete firstRow])
      [.put firstRow [65], .delete firstRow] ∧
    ¬ TreeAgrees (runRows defaultStore [.put firstRow [65], .put otherTable [66]])
      [.put firstRow [65], .put otherTable [66]] ∧
    ¬ TreeAgrees (runRows defaultStore eightRows) eightRows := by
  refine ⟨fun h => ?_, fun h => ?_, fun h => ?_, fun h => ?_⟩
  · exact absurd (h.one_cell firstRow (by decide)) (by decide)
  · exact (h.reaches_iff firstRow).mp ⟨[65], by decide, by decide +kernel⟩
      (by decide)
  · exact absurd (h.one_cell firstRow (by decide)) (by decide)
  · let eighth : RowKey := { firstRow with id := 8, pos := by decide, int := by decide }
    exact absurd (h.one_cell eighth (by decide)) (by decide)

end Storage
end InventixDB
