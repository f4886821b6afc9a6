import InventixDB.Storage.LsmRefinement

/-!
# LsmSessions — what a new session finds of an earlier one

`lsm_create` opens the log for appending but reads neither it nor the SSTable files, and numbers
its files from 1 again.  So an earlier session is found again only if there was nothing to find,
and its files stay only if it wrote none.
-/

namespace InventixDB
namespace Storage

open Lib

/-! ## Endings -/

inductive LsmEnding
  | close
  | crash
  deriving DecidableEq

/-- What a session leaves behind; a crash leaves the files as they are. -/
def LsmEnding.run (s : LSMTree × LsmDir) : LsmEnding → LSMTree × LsmDir
  | close => lsmClose s.1 s.2
  | crash => s

/-- The session that was ended is found again by the next one, and its files are kept. -/
structure Persists (basePath : CStr) (s : LSMTree × LsmDir) (ending : LsmEnding) : Prop where
  same_answers : ∀ key,
    lsmGet (lsmCreate basePath (ending.run s).2) (ending.run s).2 key = lsmGet s.1 s.2 key
  files_kept : ∀ later, ∀ sst ∈ (ending.run s).1.level0,
    ∀ sst' ∈ (lsmRun (lsmStart basePath (ending.run s).2) later).1.level0,
      sst'.filename ≠ sst.filename

/-- The session has no SSTable, and closing it writes none. -/
def WritesNothing (s : LSMTree × LsmDir) (ending : LsmEnding) : Prop :=
  s.1.level0 = [] ∧
    (ending = .close → s.1.memtable.count ≠ 0 → s.2.writable s.1.nextPath = false)

theorem level0_run_eq_nil_iff (s : LSMTree × LsmDir) (ending : LsmEnding) :
    (ending.run s).1.level0 = [] ↔ WritesNothing s ending := by
  cases ending with
  | crash =>
      refine ⟨fun h => ⟨h, fun hclose => ?_⟩, fun h => h.1⟩
      cases hclose
  | close =>
      rw [LsmEnding.run, lsmClose, lsmFlushMemtable, WritesNothing]
      split_ifs with hcount hopen
      · exact ⟨fun h => ⟨h, fun _ hne => absurd hcount hne⟩, fun h => h.1⟩
      · refine ⟨fun h => ?_, fun h => ?_⟩
        · exact absurd h (by simp [LSMTree.flushed])
        · rw [h.2 rfl hcount] at hopen
          cases hopen
      · exact ⟨fun h => ⟨h, fun _ _ => Bool.eq_false_iff.mpr hopen⟩, fun h => h.1⟩

/-! ## What stays the same in a run -/

section Runs

variable {s : LSMTree × LsmDir} {ops : List LsmOp} {op : LsmOp} {tree : LSMTree} {dir : LsmDir}

/-- A flush, by what it finds. -/
theorem lsmFlushMemtable_cases (tree : LSMTree) (dir : LsmDir) :
    (tree.memtable.count = 0 ∧ lsmFlushMemtable tree dir = (tree, dir)) ∨
    (tree.memtable.count ≠ 0 ∧ dir.writable tree.nextPath = true ∧
      lsmFlushMemtable tree dir = (tree.flushed dir, dir.flushed tree)) ∨
    (tree.memtable.count ≠ 0 ∧ dir.writable tree.nextPath = false ∧
      lsmFlushMemtable tree dir =
        ({ tree with nextSstableId := tree.nextSstableId + 1 }, dir)) := by
  rw [lsmFlushMemtable]
  split_ifs with hcount hopen
  · exact Or.inl ⟨hcount, rfl⟩
  · exact Or.inr (Or.inl ⟨hcount, hopen, rfl⟩)
  · exact Or.inr (Or.inr ⟨hcount, Bool.eq_false_iff.mpr hopen, rfl⟩)

theorem lsmFlushMemtable_of_open (hcount : tree.memtable.count ≠ 0)
    (hopen : dir.writable tree.nextPath = true) :
    lsmFlushMemtable tree dir = (tree.flushed dir, dir.flushed tree) := by
  rw [lsmFlushMemtable, if_neg hcount, if_pos hopen]

theorem lsmFlushMemtable_of_closed (hcount : tree.memtable.count ≠ 0)
    (hclosed : dir.writable tree.nextPath = false) :
    lsmFlushMemtable tree dir =
      ({ tree with nextSstableId := tree.nextSstableId + 1 }, dir) := by
  rw [lsmFlushMemtable, if_neg hcount, if_neg (Bool.eq_false_iff.mp hclosed)]

/-- An operation leaves the tables and their number alone, and may flush afterwards. -/
theorem LsmOp.run_cases (s : LSMTree × LsmDir) (op : LsmOp) :
    ∃ tree dir, tree.level0 = s.1.level0 ∧ tree.basePath = s.1.basePath ∧
      tree.nextSstableId = s.1.nextSstableId ∧ dir.writable = s.2.writable ∧
      (op.run s = (tree, dir) ∨ op.run s = lsmFlushMemtable tree dir) := by
  cases op with
  | put key value =>
      refine ⟨s.1.inserted key value, s.2.logPut s.1 key value, rfl, rfl, rfl,
        writable_logPut _ _ _ _, ?_⟩
      rw [LsmOp.run, lsmPut]
      split_ifs
      · exact Or.inr rfl
      · exact Or.inl rfl
  | delete key => exact ⟨lsmDelete s.1 key, s.2, rfl, rfl, rfl, rfl, Or.inl rfl⟩
  | flush => exact ⟨s.1, s.2, rfl, rfl, rfl, rfl, Or.inr rfl⟩

theorem level0_lsmFlushMemtable_ne_nil (h : tree.level0 ≠ []) (dir : LsmDir) :
    (lsmFlushMemtable tree dir).1.level0 ≠ [] := by
  rcases lsmFlushMemtable_cases tree dir with ⟨-, heq⟩ | ⟨-, -, heq⟩ | ⟨-, -, heq⟩
  · rwa [heq]
  · rw [heq]
    exact List.append_ne_nil_of_left_ne_nil h _
  · rwa [heq]

/-- Tables stay. -/
theorem level0_lsmRun_ne_nil (h : s.1.level0 ≠ []) (ops : List LsmOp) :
    (lsmRun s ops).1.level0 ≠ [] := by
  induction ops generalizing s with
  | nil => exact h
  | cons op ops ih =>
      obtain ⟨tree, dir, hlevel, -, -, -, hrun⟩ := LsmOp.run_cases s op
      refine ih (s := op.run s) ?_
      rw [← hlevel] at h
      rcases hrun with hrun | hrun
      · rwa [hrun]
      · rw [hrun]
        exact level0_lsmFlushMemtable_ne_nil h dir

/-- A flush that writes no file writes no key too long for one. -/
theorem flushFits_of_level0_eq_nil (h : (lsmFlushMemtable tree dir).1.level0 = []) :
    FlushFits tree dir := by
  intro hcount hopen
  rw [lsmFlushMemtable, if_neg hcount, if_pos hopen] at h
  exact absurd h (by simp [LSMTree.flushed])

theorem runFits_of_level0_eq_nil (h : (lsmRun s ops).1.level0 = []) : RunFits s ops := by
  induction ops generalizing s with
  | nil => exact trivial
  | cons op ops ih =>
      refine ⟨?_, ih h⟩
      have hstep : (op.run s).1.level0 = [] := by
        by_contra hne
        exact level0_lsmRun_ne_nil hne ops h
      cases op with
      | put key value =>
          intro hfull hcount hopen
          rw [LsmOp.run, lsmPut, if_pos hfull] at hstep
          refine flushFits_of_level0_eq_nil hstep hcount ?_
          rwa [writable_logPut]
      | delete key => exact trivial
      | flush => exact flushFits_of_level0_eq_nil hstep

/-- Without an SSTable the memtable answers alone. -/
theorem lsmGet_of_level0_eq_nil {basePath : CStr}
    (h : (lsmRun (lsmStart basePath dir) ops).1.level0 = []) (key : CStr) :
    lsmGet (lsmRun (lsmStart basePath dir) ops).1 (lsmRun (lsmStart basePath dir) ops).2 key =
      some (lastPuts ops key) := by
  refine lsm_refines_map basePath dir ops (runFits_of_level0_eq_nil h) (fun sst hsst => ?_) key
  rw [h] at hsst
  exact absurd hsst List.not_mem_nil

/-! ## File names -/

/-- The path of the file with number `n + 1`. -/
def nthPath (basePath : CStr) (n : Nat) : CStr :=
  sstablePath basePath (UInt64.ofNat (n + 1))

/-- The first file of a session is the first one that could be opened. -/
structure Numbered (basePath : CStr) (writable : CStr → Bool) (s : LSMTree × LsmDir) : Prop where
  basePath_eq : s.1.basePath = basePath
  writable_eq : s.2.writable = writable
  first : ∃ n, (∀ i < n, writable (nthPath basePath i) = false) ∧
    ((s.1.level0 = [] ∧ s.1.nextSstableId = UInt64.ofNat (n + 1)) ∨
      (writable (nthPath basePath n) = true ∧
        ∃ sst rest, s.1.level0 = sst :: rest ∧ sst.filename = nthPath basePath n))

theorem Numbered.flush {basePath : CStr} {writable : CStr → Bool}
    (h : Numbered basePath writable (tree, dir)) :
    Numbered basePath writable (lsmFlushMemtable tree dir) := by
  obtain ⟨hbase, hwritable, n, hclosed, hfirst⟩ := h
  rcases lsmFlushMemtable_cases tree dir with ⟨-, heq⟩ | ⟨-, hopen, heq⟩ | ⟨-, hopen, heq⟩
  · rw [heq]
    exact ⟨hbase, hwritable, n, hclosed, hfirst⟩
  · rw [heq]
    refine ⟨hbase, hwritable, n, hclosed, Or.inr ?_⟩
    rcases hfirst with ⟨hnil, hnext⟩ | ⟨hname, sst, rest, hlevel, hsst⟩
    · have hpath : tree.nextPath = nthPath basePath n := by
        rw [LSMTree.nextPath, hbase, hnext, nthPath]
      refine ⟨?_, _, [], congrArg (· ++ _) hnil, ?_⟩
      · rw [← hpath, ← hwritable]
        exact hopen
      · exact hpath
    · exact ⟨hname, sst, rest ++ _, congrArg (· ++ _) hlevel, hsst⟩
  · rw [heq]
    refine ⟨hbase, hwritable, ?_⟩
    rcases hfirst with ⟨hnil, hnext⟩ | hfirst
    · have hpath : tree.nextPath = nthPath basePath n := by
        rw [LSMTree.nextPath, hbase, hnext, nthPath]
      refine ⟨n + 1, fun i hi => ?_, Or.inl ⟨hnil, ?_⟩⟩
      · rcases Nat.lt_succ_iff_lt_or_eq.mp hi with hlt | rfl
        · exact hclosed i hlt
        · rw [← hpath, ← hwritable]
          exact hopen
      · rw [hnext, UInt64.ofNat_add (n + 1) 1]
        rfl
    · exact ⟨n, hclosed, Or.inr hfirst⟩

theorem Numbered.run {basePath : CStr} {writable : CStr → Bool}
    (h : Numbered basePath writable s) (ops : List LsmOp) :
    Numbered basePath writable (lsmRun s ops) := by
  induction ops generalizing s with
  | nil => exact h
  | cons op ops ih =>
      obtain ⟨tree, dir, hlevel, hbase, hnext, hwritable, hrun⟩ := LsmOp.run_cases s op
      refine ih (s := op.run s) ?_
      have hsame : Numbered basePath writable (tree, dir) := by
        obtain ⟨hbase', hwritable', hfirst⟩ := h
        rw [← hlevel, ← hnext] at hfirst
        exact ⟨hbase.trans hbase', hwritable.trans hwritable', hfirst⟩
      rcases hrun with hrun | hrun
      · rwa [hrun]
      · rw [hrun]
        exact hsame.flush

theorem Numbered.ending {basePath : CStr} {writable : CStr → Bool}
    (h : Numbered basePath writable s) (ending : LsmEnding) :
    Numbered basePath writable (ending.run s) := by
  cases ending with
  | close => exact h.flush
  | crash => exact h

theorem lsmStart_numbered (basePath : CStr) (dir : LsmDir) :
    Numbered basePath dir.writable (lsmStart basePath dir) :=
  ⟨rfl, rfl, 0, fun i hi => absurd hi (Nat.not_lt_zero i), Or.inl ⟨rfl, rfl⟩⟩

theorem length_one_lt : [(1 : UInt8)].length < 2 ^ 63 := by
  decide

/-- One small entry and `m` flushes. -/
def flushTimes (m : Nat) : List LsmOp :=
  .put (CStr.lit "k") ⟨[1], length_one_lt⟩ :: List.replicate m .flush

/-- As long as no file opens, only the number moves on. -/
theorem lsmRun_flushTimes {basePath : CStr} {m : Nat}
    (hclosed : ∀ i < m, dir.writable (nthPath basePath i) = false) :
    lsmRun (lsmStart basePath dir) (flushTimes m) =
      ({ (lsmCreate basePath dir).inserted (CStr.lit "k") ⟨[1], by decide⟩ with
          nextSstableId := UInt64.ofNat (m + 1) },
        dir.logPut (lsmCreate basePath dir) (CStr.lit "k") ⟨[1], by decide⟩) := by
  induction m with
  | zero => rfl
  | succ m ih =>
      have hlast := hclosed m (Nat.lt_succ_self m)
      have hcount : (0 : UInt64) + 1 ≠ 0 := by decide
      rw [flushTimes, List.replicate_succ', ← List.cons_append, lsmRun, List.foldl_append]
      change LsmOp.run (lsmRun (lsmStart basePath dir) (flushTimes m)) .flush = _
      rw [ih fun i hi => hclosed i (Nat.lt_succ_of_lt hi)]
      refine (lsmFlushMemtable_of_closed hcount ?_).trans ?_
      · rw [writable_logPut]
        exact hlast
      · rw [UInt64.ofNat_add (m + 1) 1]
        rfl

/-- The next session writes over the first file of the earlier one. -/
theorem Numbered.overwrites {basePath : CStr} {writable : CStr → Bool} {sst : SSTable}
    {rest : List SSTable} (h : Numbered basePath writable s) (hlevel : s.1.level0 = sst :: rest) :
    ∃ later, ∃ sst' ∈ (lsmRun (lsmStart basePath s.2) later).1.level0,
      sst'.filename = sst.filename := by
  obtain ⟨-, rfl, n, hclosed, ⟨hnil, -⟩ | ⟨hopen, first, rest', hlevel', hfirst⟩⟩ := h
  · rw [hlevel] at hnil
    cases hnil
  · rw [hlevel] at hlevel'
    obtain ⟨rfl, -⟩ := List.cons.inj hlevel'
    have hrun : lsmRun (lsmStart basePath s.2) (flushTimes n ++ [.flush]) =
        lsmFlushMemtable (lsmRun (lsmStart basePath s.2) (flushTimes n)).1
          (lsmRun (lsmStart basePath s.2) (flushTimes n)).2 := by
      rw [lsmRun, List.foldl_append]
      rfl
    have hcount : (0 : UInt64) + 1 ≠ 0 := by decide
    rw [lsmRun_flushTimes hclosed, lsmFlushMemtable_of_open hcount] at hrun
    · refine ⟨flushTimes n ++ [.flush], ?_⟩
      rw [hrun, hfirst]
      exact ⟨_, List.mem_append_right _ List.mem_cons_self, rfl⟩
    · rw [writable_logPut]
      exact hopen

/-! ## How much a session may put -/

/-- What an operation adds to the size of the memtable. -/
def LsmOp.bytes : LsmOp → Nat
  | put key value => entrySize key value
  | delete _ => 0
  | flush => 0

def putBytes (ops : List LsmOp) : Nat :=
  (ops.map LsmOp.bytes).sum

/-- Every file opens, and the memtable has taken `n` bytes and is not full yet. -/
structure Filling (s : LSMTree × LsmDir) (n : Nat) : Prop where
  opens : ∀ path, s.2.writable path = true
  level0_eq : s.1.level0 = []
  size_eq : s.1.memtable.size.toNat = n
  small : n < 2 ^ 20
  counted : s.1.memtable.count.toNat * 40 ≤ n
  empty : s.1.memtable.count = 0 → n = 0

theorem Filling.run_op {n : Nat} (h : Filling s n) (hop : op ≠ .flush)
    (hbound : n + op.bytes < 2 ^ 64) :
    if n + op.bytes < 2 ^ 20 then Filling (op.run s) (n + op.bytes)
      else (op.run s).1.level0 ≠ [] := by
  cases op with
  | put key value =>
      have hsmall := h.small
      have hcounted := h.counted
      have hbytes : (LsmOp.put key value).bytes = entrySize key value := rfl
      have hpositive : 40 ≤ entrySize key value := Nat.le_add_left 40 _
      have hsize : (s.1.inserted key value).memtable.size.toNat = n + entrySize key value := by
        show (s.1.memtable.size + UInt64.ofNat (entrySize key value)).toNat = _
        rw [UInt64.toNat_add, UInt64.toNat_ofNat', h.size_eq]
        omega
      have hcount : (s.1.inserted key value).memtable.count.toNat =
          s.1.memtable.count.toNat + 1 := by
        show (s.1.memtable.count + 1).toNat = _
        rw [UInt64.toNat_add]
        show (s.1.memtable.count.toNat + 1) % 2 ^ 64 = _
        omega
      have hne : (s.1.inserted key value).memtable.count ≠ 0 := by
        intro hzero
        rw [hzero] at hcount
        cases hcount
      have hfull : (s.1.inserted key value).memtable.size ≥ memtableSize ↔
          2 ^ 20 ≤ n + entrySize key value := by
        rw [ge_iff_le, UInt64.le_iff_toNat_le, hsize]
        rfl
      rw [hbytes, LsmOp.run, lsmPut]
      split
      · next hlt =>
          rw [if_neg (fun hge => absurd (hfull.mp hge) (by omega))]
          exact
            { opens := by
                rw [writable_logPut]
                exact h.opens
              level0_eq := h.level0_eq
              size_eq := hsize
              small := hlt
              counted := by
                rw [hcount]
                omega
              empty := fun hzero => absurd hzero hne }
      · next hge =>
          rw [if_pos (hfull.mpr (by omega)), lsmFlushMemtable_of_open hne]
          · exact List.append_ne_nil_of_right_ne_nil _ (List.cons_ne_nil _ _)
          · rw [writable_logPut]
            exact h.opens _
  | delete key =>
      rw [LsmOp.bytes, Nat.add_zero, if_pos h.small]
      exact ⟨h.opens, h.level0_eq, h.size_eq, h.small, h.counted, h.empty⟩
  | flush => exact absurd rfl hop

theorem Filling.run_ops {n : Nat} (h : Filling s n) (hops : LsmOp.flush ∉ ops)
    (hbound : n + putBytes ops < 2 ^ 64) :
    if n + putBytes ops < 2 ^ 20 then Filling (lsmRun s ops) (n + putBytes ops)
      else (lsmRun s ops).1.level0 ≠ [] := by
  induction ops generalizing s n with
  | nil =>
      have hzero : putBytes [] = 0 := rfl
      rw [hzero, Nat.add_zero, if_pos h.small]
      exact h
  | cons op ops ih =>
      have hsplit : n + putBytes (op :: ops) = n + op.bytes + putBytes ops := by
        rw [putBytes, List.map_cons, List.sum_cons, putBytes, Nat.add_assoc]
      rw [hsplit] at hbound ⊢
      have hstep := h.run_op (fun heq => hops (heq ▸ List.mem_cons_self)) (by omega)
      split at hstep
      · exact ih hstep (fun hmem => hops (List.mem_cons_of_mem op hmem)) hbound
      · rw [if_neg (by omega)]
        exact level0_lsmRun_ne_nil hstep ops

theorem lsmStart_filling (basePath : CStr) (hopen : ∀ path, dir.writable path = true) :
    Filling (lsmStart basePath dir) 0 :=
  ⟨hopen, rfl, rfl, by decide, le_rfl, fun _ => rfl⟩

theorem putBytes_eq_zero_iff (ops : List LsmOp) :
    putBytes ops = 0 ↔ ∀ key value, LsmOp.put key value ∉ ops := by
  rw [putBytes, List.sum_eq_zero_iff_forall_eq_nat]
  refine ⟨fun h key value hmem => ?_, fun h n hn => ?_⟩
  · have hzero := h _ (List.mem_map_of_mem hmem)
    rw [LsmOp.bytes, entrySize] at hzero
    omega
  · obtain ⟨op, hop, rfl⟩ := List.mem_map.mp hn
    cases op with
    | put key value => exact absurd hop (h key value)
    | delete key => rfl
    | flush => rfl

/-- Where every file opens, closing writes nothing if nothing was put, and before a crash the
memtable must not have filled up. -/
theorem writesNothing_iff {basePath : CStr} (hopen : ∀ path, dir.writable path = true)
    (hops : LsmOp.flush ∉ ops) (hbound : putBytes ops < 2 ^ 64) (ending : LsmEnding) :
    WritesNothing (lsmRun (lsmStart basePath dir) ops) ending ↔
      match ending with
      | .close => ∀ key value, LsmOp.put key value ∉ ops
      | .crash => putBytes ops < 2 ^ 20 := by
  have hrun := (lsmStart_filling basePath hopen).run_ops hops
    (by rwa [Nat.zero_add])
  rw [Nat.zero_add] at hrun
  split at hrun
  · next hsmall =>
      cases ending with
      | close =>
          rw [← putBytes_eq_zero_iff]
          refine ⟨fun h => ?_, fun h => ⟨hrun.level0_eq, fun _ hne => ?_⟩⟩
          · refine hrun.empty (by_contra fun hne => ?_)
            have hclosed := h.2 rfl hne
            rw [hrun.opens] at hclosed
            cases hclosed
          · have hcounted := hrun.counted
            rw [h] at hcounted
            refine absurd (UInt64.toNat_inj.mp ?_) hne
            show _ = 0
            omega
      | crash => exact ⟨fun _ => hsmall, fun _ => ⟨hrun.level0_eq, fun h => by cases h⟩⟩
  · next hlarge =>
      refine ⟨fun h => absurd h.1 hrun, fun h => ?_⟩
      cases ending with
      | close => exact absurd ((putBytes_eq_zero_iff ops).mpr h) (by omega)
      | crash => exact absurd h hlarge

end Runs

/-! ## When a session persists -/

/-- A session is found again exactly if it leaves no value and writes no file. -/
theorem persists_iff_writesNothing (basePath : CStr) (dir : LsmDir) (ops : List LsmOp)
    (ending : LsmEnding) :
    Persists basePath (lsmRun (lsmStart basePath dir) ops) ending ↔
      (∀ key, lastPuts ops key = none) ∧
        WritesNothing (lsmRun (lsmStart basePath dir) ops) ending := by
  have hnumbered := ((lsmStart_numbered basePath dir).run ops).ending ending
  rw [← level0_run_eq_nil_iff]
  constructor
  · intro h
    have hnil : (ending.run (lsmRun (lsmStart basePath dir) ops)).1.level0 = [] := by
      by_contra hne
      obtain ⟨sst, rest, hlevel⟩ := List.exists_cons_of_ne_nil hne
      obtain ⟨later, sst', hsst', hname⟩ := hnumbered.overwrites hlevel
      refine h.files_kept later sst ?_ sst' hsst' hname
      rw [hlevel]
      exact List.mem_cons_self
    refine ⟨fun key => ?_, hnil⟩
    have hsame := h.same_answers key
    rw [lsmGet_of_level0_eq_nil ((level0_run_eq_nil_iff _ _).mp hnil).1] at hsame
    exact (Option.some_inj.mp hsame).symm
  · rintro ⟨hnone, hnil⟩
    refine ⟨fun key => ?_, fun later sst hsst => ?_⟩
    · rw [lsmGet_of_level0_eq_nil ((level0_run_eq_nil_iff _ _).mp hnil).1, hnone key]
      rfl
    · rw [hnil] at hsst
      exact absurd hsst List.not_mem_nil

/-- Where every file opens, the last condition is one on what was put. -/
theorem lsm_persists_iff (basePath : CStr) (dir : LsmDir) (ops : List LsmOp)
    (ending : LsmEnding) :
    (Persists basePath (lsmRun (lsmStart basePath dir) ops) ending ↔
      (∀ key, lastPuts ops key = none) ∧
        WritesNothing (lsmRun (lsmStart basePath dir) ops) ending) ∧
    ((∀ path, dir.writable path = true) → LsmOp.flush ∉ ops → putBytes ops < 2 ^ 64 →
      (WritesNothing (lsmRun (lsmStart basePath dir) ops) ending ↔
        match ending with
        | .close => ∀ key value, LsmOp.put key value ∉ ops
        | .crash => putBytes ops < 2 ^ 20)) :=
  ⟨persists_iff_writesNothing basePath dir ops ending,
    fun hopen hops hbound => writesNothing_iff hopen hops hbound ending⟩

/-- A key put and deleted again before a crash. -/
theorem lsm_persists_iff_deleted :
    Persists (CStr.lit "d")
      (lsmRun (lsmStart (CStr.lit "d") emptyLsmDir)
        [.put (CStr.lit "a") ⟨[1], by decide⟩, .delete (CStr.lit "a")]) .crash := by
  have hiff := lsm_persists_iff (CStr.lit "d") emptyLsmDir
    [.put (CStr.lit "a") ⟨[1], by decide⟩, .delete (CStr.lit "a")] .crash
  refine hiff.1.mpr ⟨fun key => ?_, (hiff.2 (fun _ => rfl) (by simp) (by decide)).mpr (by decide)⟩
  rw [lastPuts, List.foldl_cons, List.foldl_cons, List.foldl_nil, LsmOp.effect, LsmOp.effect,
    Function.update_idem, Function.update_apply]
  split <;> rfl

/-- A session that has put one key. -/
def onePut : LSMTree × LsmDir :=
  lsmRun (lsmStart (CStr.lit "d") emptyLsmDir) [.put (CStr.lit "a") ⟨[1], length_one_lt⟩]

/-- The key is gone after either ending. -/
theorem lsmCreate_forgets :
    ¬ Persists (CStr.lit "d") onePut .close ∧ ¬ Persists (CStr.lit "d") onePut .crash :=
  ⟨fun h => absurd (h.same_answers (CStr.lit "a")) (by decide +kernel),
    fun h => absurd (h.same_answers (CStr.lit "a")) (by decide +kernel)⟩

end Storage
end InventixDB
