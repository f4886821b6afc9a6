import InventixDB.Storage.Lsm

/-!
# LsmRefinement — a session of the LSM tree is a map

Every layer of a tree answers from the entries of a memtable, the live one or the one its file was
written from, and the first layer that knows the key decides.  A put or a delete changes the
answer for its key only and a flush moves entries without changing any answer, as long as the keys
it writes have lengths that the 32-bit field of the file can hold.
-/

namespace InventixDB
namespace Storage

open Lib Lib.ByteCodec

/-! ## Operations and their meaning -/

inductive LsmOp
  | put (key : CStr) (value : Blob)
  | delete (key : CStr)
  | flush

def LsmOp.run (s : LSMTree × LsmDir) : LsmOp → LSMTree × LsmDir
  | put key value => lsmPut s.1 s.2 key value
  | delete key => (lsmDelete s.1 key, s.2)
  | flush => lsmFlushMemtable s.1 s.2

def lsmRun (s : LSMTree × LsmDir) (ops : List LsmOp) : LSMTree × LsmDir :=
  ops.foldl LsmOp.run s

/-- A freshly created tree in its directory. -/
def lsmStart (basePath : CStr) (dir : LsmDir) : LSMTree × LsmDir :=
  (lsmCreate basePath dir, dir)

/-- What an operation means for the map the tree stands for. -/
def LsmOp.effect (map : CStr → Option Blob) : LsmOp → CStr → Option Blob
  | put key value => Function.update map key (some value)
  | delete key => Function.update map key none
  | flush => map

/-- The last put of every key that no delete follows. -/
def lastPuts (ops : List LsmOp) : CStr → Option Blob :=
  ops.foldl LsmOp.effect fun _ => none

/-! ## What a file answers -/

section Files

variable {key key' : CStr} {entry : LSMEntry} {mt : MemTable} {l : List (CStr × LSMEntry)}

/-- The key as the file gives it back. -/
def storedKey (key : CStr) : CStr :=
  CStr.ofBytes (key.val.take (key.length % 2 ^ 32))

/-- The length of the key fits the file, the terminating NUL of the reader's copy included. -/
def FitsFile (key : CStr) : Prop :=
  key.length + 1 < 2 ^ 32

instance decidableFitsFile (key : CStr) : Decidable (FitsFile key) :=
  inferInstanceAs (Decidable (_ < _))

theorem FitsFile.storedKey_eq (h : FitsFile key) : storedKey key = key := by
  rw [FitsFile] at h
  rw [storedKey, Nat.mod_eq_of_lt (by omega), CStr.length, List.take_length, CStr.ofBytes_val]

theorem sstableScan_entryBytes (h : key'.length % 2 ^ 32 + 1 ≠ 2 ^ 32) (rest : List UInt8) :
    sstableScan key (entryBytes key' entry ++ rest) =
      if storedKey key' = key then some (some entry) else sstableScan key rest := by
  -- the key and what is left of the file after it
  obtain ⟨stored, hstored⟩ : ∃ stored, stored = key'.val.take (key'.length % 2 ^ 32) := ⟨_, rfl⟩
  obtain ⟨tail, htail⟩ : ∃ tail, tail = leBytes 8 entry.value.val.length ++
    (entry.value.val ++ rest) := ⟨_, rfl⟩
  have hlen : stored.length = key'.length % 2 ^ 32 := by
    rw [hstored, List.length_take]
    exact min_eq_left (Nat.mod_le _ _)
  have hkeyLen : stored.length < 256 ^ 4 := by
    rw [hlen]
    exact Nat.mod_lt _ (by decide)
  have hvalue : entry.value.val.length < 256 ^ 8 := lt_trans entry.value.property (by decide)
  have hbytes : entryBytes key' entry ++ rest = leBytes 4 stored.length ++
      (stored ++ (if entry.deleted then 1 else 0) :: tail) := by
    have hfield : leBytes 4 key'.length = leBytes 4 stored.length := by
      rw [hlen]
      exact (leBytes_mod 4 key'.length).symm
    rw [entryBytes, ← hstored, hfield, htail]
    simp
  rw [hbytes, sstableScan]
  split
  · next hnone =>
      rw [readLE_append hkeyLen] at hnone
      cases hnone
  · next keyLen bs₁ hsome =>
      rw [readLE_append hkeyLen] at hsome
      obtain ⟨rfl, rfl⟩ := Prod.mk.inj (Option.some.inj hsome)
      rw [if_neg (by rw [hlen]; exact h)]
      split
      · next hnone =>
          rw [readExact_append] at hnone
          cases hnone
      · next readKey bs₂ hsome =>
          rw [readExact_append] at hsome
          obtain ⟨rfl, rfl⟩ := Prod.mk.inj (Option.some.inj hsome)
          dsimp only
          split
          · next hnone =>
              rw [htail, readLE_append hvalue] at hnone
              cases hnone
          · next valueLen bs₄ hsome =>
              rw [htail, readLE_append hvalue] at hsome
              obtain ⟨rfl, rfl⟩ := Prod.mk.inj (Option.some.inj hsome)
              rw [dif_pos entry.value.property, List.drop_left, storedKey, ← hstored]
              by_cases hkey : CStr.ofBytes stored = key
              · rw [if_pos hkey, if_pos hkey, if_pos (by simp)]
                obtain ⟨value, deleted⟩ := entry
                cases deleted <;> simp
              · rw [if_neg hkey, if_neg hkey]

/-- The file of a memtable with keys that fit it answers as the memtable does. -/
theorem sstableScan_entries (h : ∀ kv ∈ l, FitsFile kv.1) (key : CStr) :
    sstableScan key (l.flatMap fun kv => entryBytes kv.1 kv.2) =
      some (SortedList.lookup key l) := by
  induction l with
  | nil =>
      rw [List.flatMap_nil, sstableScan]
      rfl
  | cons kv l ih =>
      have hfits := h kv List.mem_cons_self
      have hmod : kv.1.length % 2 ^ 32 + 1 ≠ 2 ^ 32 := by
        have hlt := hfits
        rw [FitsFile] at hlt
        omega
      rw [List.flatMap_cons, sstableScan_entryBytes hmod, hfits.storedKey_eq,
        ih fun kv' hkv' => h kv' (List.mem_cons_of_mem kv hkv'), SortedList.lookup_cons]
      by_cases hkey : kv.1 = key
      · rw [if_pos hkey, if_pos hkey.symm]
      · rw [if_neg hkey, if_neg (Ne.symm hkey)]

theorem bloomMayContain_add (filter : BloomFilter) (key : CStr) :
    bloomMayContain (bloomAdd filter key) key = true := by
  refine decide_eq_true fun i => ?_
  rw [bloomAdd, Bool.or_eq_true]
  exact Or.inr (decide_eq_true ⟨i, rfl⟩)

theorem bloomMayContain_mono {filter : BloomFilter} (h : bloomMayContain filter key = true)
    (key' : CStr) : bloomMayContain (bloomAdd filter key') key = true := by
  have hbits := of_decide_eq_true h
  refine decide_eq_true fun i => ?_
  rw [bloomAdd, hbits i, Bool.true_or]

/-- A filter knows every key that was added to it. -/
theorem bloomMayContain_foldl (kv : CStr × LSMEntry) {filter : BloomFilter}
    (h : kv ∈ l ∨ bloomMayContain filter kv.1 = true) :
    bloomMayContain (l.foldl (fun filter kv => bloomAdd filter kv.1) filter) kv.1 = true := by
  induction l generalizing filter with
  | nil => exact h.resolve_left List.not_mem_nil
  | cons kv' l ih =>
      refine ih ?_
      rcases h with h | h
      · rcases List.mem_cons.mp h with rfl | h
        · exact Or.inr (bloomMayContain_add filter kv.1)
        · exact Or.inl h
      · exact Or.inr (bloomMayContain_mono h kv'.1)

end Files

/-! ## Layers -/

section Layers

variable {tree : LSMTree} {dir : LsmDir} {sst : SSTable} {key k : CStr} {mt : MemTable}
  {value : Blob}

/-- The entry of the first layer that knows the key. -/
def LSMTree.known (tree : LSMTree) (key : CStr) : Option LSMEntry :=
  (memtableGet tree.memtable key).or
    (tree.level0.reverse.findSome? fun sst => memtableGet sst.source key)

/-- A memtable whose keys are in order. -/
def MemTable.Sorted (mt : MemTable) : Prop :=
  SortedList.Sorted mt.root.toList

/-- A table whose file can be read as its memtable could. -/
structure SSTable.Faithful (sst : SSTable) : Prop where
  sorted : sst.source.Sorted
  fits : ∀ kv ∈ sst.source.root.toList, FitsFile kv.1
  filter_eq : sst.bloomFilter = sstableFilter sst.source

structure LSMTree.Intact (tree : LSMTree) : Prop where
  sorted : tree.memtable.Sorted
  faithful : ∀ sst ∈ tree.level0, sst.Faithful

/-- Every SSTable file of the tree holds what was written to it. -/
def LSMTree.ReadsBack (tree : LSMTree) (dir : LsmDir) : Prop :=
  ∀ sst ∈ tree.level0, dir.files sst.filename = some (sstableBytes sst.source)

instance decidableReadsBack (tree : LSMTree) (dir : LsmDir) : Decidable (tree.ReadsBack dir) :=
  inferInstanceAs (Decidable (∀ sst ∈ _, _))

theorem MemTable.Sorted.get_eq (h : mt.Sorted) (key : CStr) :
    memtableGet mt key = SortedList.lookup key mt.root.toList :=
  AvlTree.find_eq_lookup h key

theorem SSTable.Faithful.get_eq (h : sst.Faithful)
    (hread : dir.files sst.filename = some (sstableBytes sst.source)) (key : CStr) :
    sstableGet dir sst key = some (memtableGet sst.source key) := by
  rw [sstableGet, hread, h.sorted.get_eq]
  exact sstableScan_entries h.fits key

/-- A key the filter does not know is not in the table. -/
theorem SSTable.Faithful.get_eq_none (h : sst.Faithful)
    (hfilter : bloomMayContain sst.bloomFilter key ≠ true) :
    memtableGet sst.source key = none := by
  rw [h.sorted.get_eq, Option.eq_none_iff_forall_ne_some]
  intro entry hentry
  refine hfilter ?_
  rw [h.filter_eq]
  exact bloomMayContain_foldl (key, entry) (Or.inl (SortedList.mem_of_lookup hentry))

theorem searchTables_eq {tables : List SSTable}
    (h : ∀ sst ∈ tables, sst.Faithful ∧
      dir.files sst.filename = some (sstableBytes sst.source)) (key : CStr) :
    searchTables dir key tables =
      some (tables.findSome? fun sst => memtableGet sst.source key) := by
  induction tables with
  | nil => rfl
  | cons sst rest ih =>
      obtain ⟨hfaithful, hread⟩ := h sst List.mem_cons_self
      have hrest := ih fun sst' hsst' => h sst' (List.mem_cons_of_mem sst hsst')
      rw [searchTables, List.findSome?_cons]
      split
      · rw [hfaithful.get_eq hread]
        cases memtableGet sst.source key with
        | none => exact hrest
        | some entry => rfl
      · next hfilter =>
          rw [hfaithful.get_eq_none hfilter]
          exact hrest

/-- A lookup returns what the first layer that knows the key has. -/
theorem LSMTree.Intact.lsmGet_eq (h : tree.Intact) (hread : tree.ReadsBack dir) (key : CStr) :
    lsmGet tree dir key = some ((tree.known key).bind LSMEntry.live) := by
  rw [lsmGet, LSMTree.known, searchTables_eq fun sst hsst =>
    ⟨h.faithful sst (List.mem_reverse.mp hsst), hread sst (List.mem_reverse.mp hsst)⟩]
  cases memtableGet tree.memtable key with
  | none => rfl
  | some entry => rfl

/-! ## One operation -/

theorem MemTable.Sorted.put (h : mt.Sorted) (key : CStr) (value : Blob) :
    (memtablePut mt key value).Sorted := by
  rw [MemTable.Sorted, memtablePut, AvlTree.toList_insert h]
  exact SortedList.Sorted.insert h key _

theorem MemTable.Sorted.delete (h : mt.Sorted) (key : CStr) : (memtableDelete mt key).Sorted := by
  rw [MemTable.Sorted, memtableDelete, AvlTree.toList_insert h]
  exact SortedList.Sorted.insert h key _

theorem MemTable.Sorted.get_put (h : mt.Sorted) (key k : CStr) (value : Blob) :
    memtableGet (memtablePut mt key value) k =
      if k = key then some { value, deleted := false } else memtableGet mt k := by
  rw [(h.put key value).get_eq, h.get_eq, memtablePut, AvlTree.toList_insert h,
    SortedList.lookup_insert]

theorem MemTable.Sorted.get_delete (h : mt.Sorted) (key k : CStr) :
    memtableGet (memtableDelete mt key) k =
      if k = key then some tombstone else memtableGet mt k := by
  rw [(h.delete key).get_eq, h.get_eq, memtableDelete, AvlTree.toList_insert h,
    SortedList.lookup_insert]

theorem writable_logPut (dir : LsmDir) (tree : LSMTree) (key : CStr) (value : Blob) :
    (dir.logPut tree key value).writable = dir.writable := by
  rw [LsmDir.logPut]
  split <;> rfl

/-- If a flush writes a file now, the keys of the memtable fit it. -/
def FlushFits (tree : LSMTree) (dir : LsmDir) : Prop :=
  tree.memtable.count ≠ 0 → dir.writable tree.nextPath = true →
    ∀ kv ∈ tree.memtable.root.toList, FitsFile kv.1

instance decidableFlushFits (tree : LSMTree) (dir : LsmDir) : Decidable (FlushFits tree dir) :=
  inferInstanceAs (Decidable (_ → _ → _))

/-- Entries move to a new table, which is asked right after the memtable. -/
theorem LSMTree.known_flushed (tree : LSMTree) (dir : LsmDir) (key : CStr) :
    (tree.flushed dir).known key = tree.known key := by
  rw [LSMTree.known, LSMTree.flushed, List.reverse_append, List.reverse_singleton,
    List.singleton_append, List.findSome?_cons, LSMTree.known]
  cases memtableGet tree.memtable key with
  | none => rfl
  | some entry => rfl

theorem known_lsmFlushMemtable (tree : LSMTree) (dir : LsmDir) (key : CStr) :
    (lsmFlushMemtable tree dir).1.known key = tree.known key := by
  rw [lsmFlushMemtable]
  split_ifs
  · rfl
  · exact tree.known_flushed dir key
  · rfl

theorem LSMTree.Intact.flush (h : tree.Intact) (hfits : FlushFits tree dir) :
    (lsmFlushMemtable tree dir).1.Intact := by
  rw [lsmFlushMemtable]
  split_ifs with hcount hopen
  · exact h
  · refine ⟨List.Pairwise.nil, fun sst hsst => ?_⟩
    rcases List.mem_append.mp hsst with hold | hnew
    · exact h.faithful sst hold
    · rw [List.mem_singleton.mp hnew]
      exact ⟨h.sorted, hfits hcount hopen, rfl⟩
  · exact ⟨h.sorted, h.faithful⟩

/-- If the operation flushes, the keys it writes fit the file. -/
def LsmOp.Fits (s : LSMTree × LsmDir) : LsmOp → Prop
  | put key value =>
      (s.1.inserted key value).memtable.size ≥ memtableSize →
        FlushFits (s.1.inserted key value) s.2
  | delete _ => True
  | flush => FlushFits s.1 s.2

instance decidableOpFits (s : LSMTree × LsmDir) : (op : LsmOp) → Decidable (op.Fits s)
  | .put _ _ => inferInstanceAs (Decidable (_ → _))
  | .delete _ => isTrue trivial
  | .flush => inferInstanceAs (Decidable (FlushFits _ _))

theorem LSMTree.Intact.inserted (h : tree.Intact) (key : CStr) (value : Blob) :
    (tree.inserted key value).Intact :=
  ⟨h.sorted.put key value, h.faithful⟩

theorem LSMTree.Intact.known_inserted (h : tree.Intact) (key k : CStr) (value : Blob) :
    (tree.inserted key value).known k =
      if k = key then some { value, deleted := false } else tree.known k := by
  rw [LSMTree.known, LSMTree.inserted, h.sorted.get_put, LSMTree.known]
  split <;> rfl

theorem LSMTree.Intact.known_lsmDelete (h : tree.Intact) (key k : CStr) :
    (lsmDelete tree key).known k = if k = key then some tombstone else tree.known k := by
  rw [LSMTree.known, lsmDelete, h.sorted.get_delete, LSMTree.known]
  split <;> rfl

/-- The tree stands for the map. -/
def LSMTree.Represents (tree : LSMTree) (map : CStr → Option Blob) : Prop :=
  ∀ key, (tree.known key).bind LSMEntry.live = map key

theorem LSMTree.Represents.flush {map : CStr → Option Blob} (h : tree.Represents map)
    (dir : LsmDir) : (lsmFlushMemtable tree dir).1.Represents map := by
  intro key
  rw [known_lsmFlushMemtable]
  exact h key

theorem LsmOp.run_keeps {s : LSMTree × LsmDir} {map : CStr → Option Blob} {op : LsmOp}
    (h : s.1.Intact) (hmap : s.1.Represents map) (hfits : op.Fits s) :
    (op.run s).1.Intact ∧ (op.run s).1.Represents (op.effect map) := by
  cases op with
  | put key value =>
      have hintact := h.inserted key value
      have hput : (s.1.inserted key value).Represents (Function.update map key (some value)) := by
        intro k
        rw [h.known_inserted, Function.update_apply]
        split
        · rfl
        · exact hmap k
      rw [LsmOp.run, lsmPut]
      split_ifs with hfull
      · refine ⟨hintact.flush fun hcount hopen => hfits hfull hcount ?_, hput.flush _⟩
        rwa [writable_logPut] at hopen
      · exact ⟨hintact, hput⟩
  | delete key =>
      refine ⟨⟨h.sorted.delete key, h.faithful⟩, fun k => ?_⟩
      rw [LsmOp.run, h.known_lsmDelete, LsmOp.effect, Function.update_apply]
      split
      · rfl
      · exact hmap k
  | flush => exact ⟨h.flush hfits, hmap.flush s.2⟩

end Layers

/-! ## Whole sessions -/

/-- No flush of the run writes a key that does not fit its file. -/
def RunFits : LSMTree × LsmDir → List LsmOp → Prop
  | _, [] => True
  | s, op :: ops => op.Fits s ∧ RunFits (op.run s) ops

instance decidableRunFits (s : LSMTree × LsmDir) : (ops : List LsmOp) → Decidable (RunFits s ops)
  | [] => isTrue trivial
  | op :: ops =>
      have := decidableRunFits (op.run s) ops
      inferInstanceAs (Decidable (_ ∧ _))

theorem lsmRun_keeps {ops : List LsmOp} {s : LSMTree × LsmDir} {map : CStr → Option Blob}
    (h : s.1.Intact) (hmap : s.1.Represents map) (hfits : RunFits s ops) :
    (lsmRun s ops).1.Intact ∧ (lsmRun s ops).1.Represents (ops.foldl LsmOp.effect map) := by
  induction ops generalizing s map with
  | nil => exact ⟨h, hmap⟩
  | cons op ops ih =>
      obtain ⟨hstep, hrest⟩ := hfits
      obtain ⟨hintact, hrep⟩ := LsmOp.run_keeps h hmap hstep
      exact ih hintact hrep hrest

theorem lsmCreate_intact (basePath : CStr) (dir : LsmDir) : (lsmCreate basePath dir).Intact :=
  ⟨List.Pairwise.nil, fun _ hsst => absurd hsst List.not_mem_nil⟩

theorem lsmCreate_represents (basePath : CStr) (dir : LsmDir) :
    (lsmCreate basePath dir).Represents fun _ => none :=
  fun _ => rfl

/-- After any operations a lookup returns the last put of the key that no delete follows. -/
theorem lsm_refines_map (basePath : CStr) (dir : LsmDir) (ops : List LsmOp)
    (hfits : RunFits (lsmStart basePath dir) ops)
    (hread : (lsmRun (lsmStart basePath dir) ops).1.ReadsBack
      (lsmRun (lsmStart basePath dir) ops).2) (key : CStr) :
    lsmGet (lsmRun (lsmStart basePath dir) ops).1 (lsmRun (lsmStart basePath dir) ops).2 key =
      some (lastPuts ops key) := by
  obtain ⟨hintact, hrep⟩ := lsmRun_keeps (s := lsmStart basePath dir)
    (lsmCreate_intact basePath dir) (lsmCreate_represents basePath dir) hfits
  rw [hintact.lsmGet_eq hread, hrep key]
  rfl

/-- Two keys in two files, the first one deleted between the flushes. -/
def twoFlushes : List LsmOp :=
  [.put (CStr.lit "a") ⟨[1], by decide⟩, .flush, .delete (CStr.lit "a"),
    .put (CStr.lit "b") ⟨[2], by decide⟩, .flush]

/-- A directory without files in which every file opens. -/
def emptyLsmDir : LsmDir :=
  { files := fun _ => none, wal := [], writable := fun _ => true }

theorem lsm_refines_map_twoFlushes :
    lsmGet (lsmRun (lsmStart (CStr.lit "d") emptyLsmDir) twoFlushes).1
      (lsmRun (lsmStart (CStr.lit "d") emptyLsmDir) twoFlushes).2 (CStr.lit "a") =
        some (lastPuts twoFlushes (CStr.lit "a")) :=
  lsm_refines_map (CStr.lit "d") emptyLsmDir twoFlushes
    (by decide +kernel) (by decide +kernel) (CStr.lit "a")

/-- A key of 2^32 bytes is flushed at once, and its file gives it back as the empty key. -/
theorem lsmGet_overlong (basePath : CStr) (dir : LsmDir) (key : CStr) (value : Blob)
    (hopen : ∀ path, dir.writable path = true) (hlen : key.length = 2 ^ 32) :
    (lsmRun (lsmStart basePath dir) [.put key value]).1.ReadsBack
      (lsmRun (lsmStart basePath dir) [.put key value]).2 ∧
    lsmGet (lsmRun (lsmStart basePath dir) [.put key value]).1
      (lsmRun (lsmStart basePath dir) [.put key value]).2 key = some none ∧
    lastPuts [.put key value] key = some value := by
  obtain ⟨tree, htree⟩ : ∃ tree, tree = (lsmCreate basePath dir).inserted key value := ⟨_, rfl⟩
  obtain ⟨logged, hlogged⟩ : ∃ logged, logged = dir.logPut (lsmCreate basePath dir) key value :=
    ⟨_, rfl⟩
  have hfull : tree.memtable.size ≥ memtableSize := by
    have hvalue := value.property
    rw [htree]
    show memtableSize ≤ 0 + UInt64.ofNat (entrySize key value)
    rw [UInt64.zero_add, UInt64.le_iff_toNat_le, UInt64.toNat_ofNat', entrySize, hlen]
    show 1048576 ≤ _
    omega
  have hcount : tree.memtable.count ≠ 0 := by
    rw [htree]
    show (0 : UInt64) + 1 ≠ 0
    decide
  have hpath : logged.writable tree.nextPath = true := by
    rw [hlogged, writable_logPut]
    exact hopen _
  have hrun : lsmRun (lsmStart basePath dir) [.put key value] =
      (tree.flushed logged, logged.flushed tree) := by
    show lsmPut (lsmCreate basePath dir) dir key value = _
    rw [lsmPut, ← htree, ← hlogged, if_pos hfull, lsmFlushMemtable, if_neg hcount, if_pos hpath]
  have hlist : tree.memtable.root.toList = [(key, { value, deleted := false })] := by
    rw [htree]
    rfl
  have hfile : (logged.flushed tree).files tree.nextPath =
      some (entryBytes key { value, deleted := false } ++ []) := by
    show Function.update _ _ _ _ = _
    rw [Function.update_self, sstableBytes, hlist, List.flatMap_cons, List.flatMap_nil]
  have hfilter : bloomMayContain (sstableFilter tree.memtable) key = true := by
    rw [sstableFilter, hlist]
    exact bloomMayContain_foldl (key, _) (Or.inl List.mem_cons_self)
  have hscan : sstableScan key (entryBytes key { value, deleted := false } ++ []) = some none := by
    have hempty : storedKey key ≠ key := by
      intro heq
      have hlen' := congrArg CStr.length heq
      rw [storedKey, hlen, Nat.mod_self, List.take_zero] at hlen'
      cases hlen'
    rw [sstableScan_entryBytes (by rw [hlen]; decide), if_neg hempty, sstableScan]
    rfl
  rw [hrun]
  have hput : lastPuts [.put key value] key = some value := by
    rw [lastPuts, List.foldl_cons, List.foldl_nil, LsmOp.effect, Function.update_self]
  refine ⟨fun sst hsst => ?_, ?_, hput⟩
  · have hnew : sst ∈ [{ filename := tree.nextPath
                         bloomFilter := sstableFilter tree.memtable
                         source := tree.memtable : SSTable }] := by
      rw [LSMTree.flushed, htree] at hsst
      rwa [htree]
    rw [List.mem_singleton.mp hnew, hfile, sstableBytes, hlist, List.flatMap_cons,
      List.flatMap_nil]
  · have hlevel : (tree.flushed logged).level0.reverse =
        [{ filename := tree.nextPath
           bloomFilter := sstableFilter tree.memtable
           source := tree.memtable }] := by
      rw [LSMTree.flushed, htree]
      rfl
    have hget : sstableGet (logged.flushed tree)
        { filename := tree.nextPath
          bloomFilter := sstableFilter tree.memtable
          source := tree.memtable } key = some none := by
      rw [sstableGet, hfile]
      exact hscan
    have hmem : memtableGet (tree.flushed logged).memtable key = none := rfl
    rw [lsmGet, hmem, hlevel, searchTables, if_pos hfilter, hget]
    rfl

/-- A key of 2^32 bytes. -/
def overlongKey : CStr :=
  ⟨List.replicate (2 ^ 32) 97, fun h => absurd (List.eq_of_mem_replicate h) (by decide)⟩

theorem lsmGet_loses_overlongKey :
    (lsmRun (lsmStart (CStr.lit "d") emptyLsmDir) [.put overlongKey ⟨[1], by decide⟩]).1.ReadsBack
      (lsmRun (lsmStart (CStr.lit "d") emptyLsmDir) [.put overlongKey ⟨[1], by decide⟩]).2 ∧
    lsmGet (lsmRun (lsmStart (CStr.lit "d") emptyLsmDir) [.put overlongKey ⟨[1], by decide⟩]).1
      (lsmRun (lsmStart (CStr.lit "d") emptyLsmDir) [.put overlongKey ⟨[1], by decide⟩]).2
        overlongKey = some none ∧
    lastPuts [.put overlongKey ⟨[1], by decide⟩] overlongKey = some ⟨[1], by decide⟩ :=
  lsmGet_overlong (CStr.lit "d") emptyLsmDir overlongKey ⟨[1], by decide⟩ (fun _ => rfl)
    List.length_replicate

end Storage
end InventixDB
