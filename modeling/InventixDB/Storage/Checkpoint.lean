import InventixDB.Storage.Durability

/-!
# Checkpoint — a process that stops inside a checkpoint

A checkpoint is a list of file operations, and a crash leaves a prefix of it done.  Before the
old snapshot is removed and after the log is truncated the files are those of a finished call.
In between, the log is replayed on no snapshot at all, and then on the new one.
-/

namespace InventixDB
namespace Storage

open Lib.OpenAddressing

variable {n : Nat} [NeZero n]

/-! ## Crash points -/

/-- The files after the first `i` operations of the checkpoint. -/
def diskAfter (store : KVStore n) (i : Nat) : Disk :=
  ((snapshotOps store).take i).foldl FileOp.run store.disk

/-- Recovery from those files gives every key the value it had before the checkpoint. -/
def CrashSafe (store : KVStore n) (i : Nat) : Prop :=
  ∃ r, kvRecover (emptied { store with disk := diskAfter store i }) = some r ∧
    ∀ key, kvGet r key = kvGet store key

/-- The number of operations done once the old snapshot is gone. -/
def removedAt (store : KVStore n) : Nat :=
  (tmpOps store).length + 1

/-- The number of operations done once the new snapshot is in its place. -/
def renamedAt (store : KVStore n) : Nat :=
  (tmpOps store).length + 2

/-- The store that a checkpoint fired by appending `record` saves: the record is logged already. -/
def autoCheckpoint (store : KVStore n) (record : LogRecord) : Option (KVStore n) :=
  if Checkpoints store record then some (appended store record) else none

omit [NeZero n] in
theorem autoCheckpoint_eq_some {store s : KVStore n} {record : LogRecord}
    (hs : autoCheckpoint store record = some s) :
    Checkpoints store record ∧ s = appended store record := by
  obtain ⟨hpast, hs⟩ := Option.ite_none_right_eq_some.mp hs
  exact ⟨hpast, (Option.some_inj.mp hs).symm⟩

omit [NeZero n] in
theorem kvAppendLog_of_autoCheckpoint {store s : KVStore n} {record : LogRecord}
    (hlog : store.logFp = true) (hs : autoCheckpoint store record = some s) :
    kvAppendLog store record = kvSnapshotInternal s := by
  obtain ⟨hpast, rfl⟩ := autoCheckpoint_eq_some hs
  rw [kvAppendLog_eq, if_pos hlog, if_pos hpast]

/-- The store that a checkpoint taken by the call saves. -/
def KVCall.checkpointed (store : KVStore n) : KVCall → Option (KVStore n)
  | .put key val =>
      autoCheckpoint
        (kvPutInternal { store with btreeTable := btreePut store.btreeTable key val } key val)
        (.put key val)
  | .delete key =>
      match probe CStr.slot store.entries key with
      | .hit i =>
          autoCheckpoint { store with entries := Function.update store.entries i none } (.del key)
      | _ => none
  | .get _ => none
  | .snapshot => some store

theorem checkpointed_delete {store s : KVStore n} {key : CStr}
    (hck : (KVCall.delete key).checkpointed store = some s) :
    ∃ i, probe CStr.slot store.entries key = .hit i ∧
      autoCheckpoint { store with entries := Function.update store.entries i none }
        (.del key) = some s := by
  rw [KVCall.checkpointed] at hck
  cases hp : probe CStr.slot store.entries key with
  | hit i =>
      rw [hp] at hck
      exact ⟨i, rfl, hck⟩
  | free i =>
      rw [hp] at hck
      cases hck
  | full =>
      rw [hp] at hck
      cases hck

/-- The call takes that checkpoint, and nothing after it. -/
theorem exec_of_checkpointed {store s : KVStore n} (hlog : store.logFp = true) {call : KVCall}
    (hck : call.checkpointed store = some s) : call.exec store = kvSnapshotInternal s := by
  cases call with
  | put key val => exact kvAppendLog_of_autoCheckpoint hlog hck
  | delete key =>
      obtain ⟨i, hp, hauto⟩ := checkpointed_delete hck
      rw [KVCall.exec, kvDelete, hp]
      exact kvAppendLog_of_autoCheckpoint hlog hauto
  | get key => cases hck
  | snapshot =>
      cases hck
      rfl

omit [NeZero n] in
/-- Writing the temporary file leaves the snapshot and the log alone. -/
theorem run_take_tmpOps (store : KVStore n) (i : Nat) :
    ∃ tmp, ((tmpOps store).take i).foldl FileOp.run store.disk =
      { store.disk with snapTmp := tmp } := by
  have htmp : ∀ op ∈ (tmpOps store).take i, op = .createTmp ∨ ∃ bs, op = .writeTmp bs := by
    intro op hop
    have hmem := List.mem_of_mem_take hop
    unfold tmpOps at hmem
    rcases List.mem_cons.mp hmem with rfl | hmem
    · exact Or.inl rfl
    · rcases List.mem_cons.mp hmem with rfl | hmem
      · exact Or.inr ⟨_, rfl⟩
      · obtain ⟨e, _, hmem⟩ := List.mem_flatMap.mp hmem
        simp only [List.mem_cons, List.not_mem_nil, or_false] at hmem
        rcases hmem with rfl | rfl | rfl | rfl | rfl <;> exact Or.inr ⟨_, rfl⟩
  generalize (tmpOps store).take i = ops at htmp
  generalize store.disk = disk
  induction ops generalizing disk with
  | nil => exact ⟨disk.snapTmp, rfl⟩
  | cons op ops ih =>
      obtain ⟨tmp, hrun⟩ := ih (fun op hop => htmp op (List.mem_cons_of_mem _ hop)) (op.run disk)
      refine ⟨tmp, ?_⟩
      rw [List.foldl_cons, hrun]
      rcases htmp op List.mem_cons_self with rfl | ⟨bs, rfl⟩ <;> rfl

/-- The files describe the map of the store: the puts of the snapshot, then the log. -/
structure InStep (store : KVStore n) (live : List (CStr × Value)) (recs : List LogRecord) :
    Prop where
  tmpOpens : store.disk.tmpOpens = true
  intact : Intact CStr.slot store.entries
  fits : ∀ e ∈ toList store.entries, Fits e.1 e.2
  disk : DiskHolds store.disk live recs
  map : lookup CStr.slot store.entries = mapOps (fun _ => none) (recoveryOps live recs)

/-- What is rebuilt without cutting a chain has the map the files describe. -/
theorem lookup_rebuilt {live : List (CStr × Value)} {recs : List LogRecord}
    (hsafe : SafeOps CStr.slot (empty : Table CStr Value n) (recoveryOps live recs)) :
    lookup CStr.slot (rebuilt live recs : Table CStr Value n) =
      mapOps (fun _ => none) (recoveryOps live recs) := by
  have hnone : lookup CStr.slot (empty : Table CStr Value n) = fun _ => none := by
    funext key
    exact lookup_empty
  rw [rebuilt, ← hnone]
  exact hsafe.lookup_applyOps intact_empty

section CrashPoints

variable {store : KVStore n} {live : List (CStr × Value)} {recs : List LogRecord}

theorem Durable.inStep (hd : Durable store live recs) : InStep store live recs where
  tmpOpens := hd.tmpOpens
  intact := hd.intact
  fits := hd.fits
  disk := hd.disk
  map := hd.same.symm.trans (lookup_rebuilt hd.safe)

/-- A logged change keeps the files in step, whether or not they can be replayed. -/
theorem InStep.appended (hs : InStep store live recs) (btreeTable : BTreeTable) (op : LogRecord)
    (hop : op.Fits CStr.slot store.entries) (hrec : RecordFits op) :
    InStep
      (appended
        { store with
          btreeTable := btreeTable
          entries := op.apply CStr.slot store.entries } op) live (recs ++ [op]) := by
  obtain ⟨hI, hl⟩ := hs.intact.apply hop
  have hops : recoveryOps live (recs ++ [op]) = recoveryOps live recs ++ [op] := by
    simp [recoveryOps]
  refine
    { tmpOpens := hs.tmpOpens
      intact := hI
      fits := fits_apply hs.intact hs.fits hop hrec
      disk := hs.disk.appendLog hrec
      map := ?_ }
  rw [hops, mapOps_append, mapOps_cons, mapOps_nil, ← hs.map]
  exact hl

/-- Every checkpoint starts with files in step with the store it saves. -/
theorem InStep.checkpointed (hs : InStep store live recs) {call : KVCall} {s : KVStore n}
    (hfit : call.Fits store) (hck : call.checkpointed store = some s) :
    ∃ recs', InStep s live recs' := by
  cases call with
  | put key val =>
      obtain ⟨hsize, hroom⟩ := hfit
      obtain ⟨_, rfl⟩ := autoCheckpoint_eq_some hck
      exact ⟨_, hs.appended _ (.put key val) hroom hsize⟩
  | delete key =>
      obtain ⟨i, hp, hauto⟩ := checkpointed_delete hck
      obtain ⟨_, rfl⟩ := autoCheckpoint_eq_some hauto
      obtain ⟨⟨val, hval⟩, _⟩ := probe_eq_hit_iff.mp hp
      have hrec : RecordFits (.del key) := (hs.fits (key, val) (mem_toList.mpr ⟨i, hval⟩)).1
      have happ := hs.appended store.btreeTable (.del key) hfit.1 hrec
      rw [Op.apply, erase_of_hit hp] at happ
      exact ⟨_, happ⟩
  | get key => cases hck
  | snapshot =>
      cases hck
      exact ⟨recs, hs⟩

omit [NeZero n] in
/-- Before the old snapshot is removed, the files still hold what they held. -/
theorem diskHolds_before (hdisk : DiskHolds store.disk live recs) {i : Nat}
    (hi : i ≤ (tmpOps store).length) : DiskHolds (diskAfter store i) live recs := by
  have htake : (snapshotOps store).take i = (tmpOps store).take i := by
    unfold snapshotOps
    rw [List.take_append_of_le_length hi]
  obtain ⟨tmp, hrun⟩ := run_take_tmpOps store i
  unfold diskAfter
  rw [htake, hrun]
  exact ⟨hdisk.snap, hdisk.log, hdisk.live_count, hdisk.live_fits, hdisk.recs_fit⟩

omit [NeZero n] in
theorem diskAfter_add (store : KVStore n) (i : Nat) :
    diskAfter store ((tmpOps store).length + i) =
      ([FileOp.removeSnap, .renameTmp, .truncateLog].take i).foldl FileOp.run
        { store.disk with snapTmp := some (encodeSnap (toList store.entries)) } := by
  unfold diskAfter snapshotOps
  rw [List.take_length_add_append, List.foldl_append, run_tmpOps]

omit [NeZero n] in
/-- Between the removal and the renaming only the log is left. -/
theorem diskHolds_removed (hdisk : DiskHolds store.disk live recs) :
    DiskHolds (diskAfter store (removedAt store)) [] recs := by
  rw [removedAt, diskAfter_add]
  exact ⟨Or.inr ⟨rfl, rfl⟩, hdisk.log, by decide, by simp, hdisk.recs_fit⟩

/-- Between the renaming and the truncation the old log stands beside the new snapshot. -/
theorem diskHolds_renamed (hs : InStep store live recs) :
    DiskHolds (diskAfter store (renamedAt store)) (toList store.entries) recs := by
  have hlen : (toList store.entries).length < 2 ^ 31 :=
    lt_of_le_of_lt (length_toList_le _) store.capacity_int
  rw [renamedAt, diskAfter_add]
  exact ⟨Or.inl rfl, hs.disk.log, hlen, hs.fits, hs.disk.recs_fit⟩

/-- The finished checkpoint leaves the new snapshot and an empty log. -/
theorem diskHolds_finished (hs : InStep store live recs) {i : Nat}
    (hi : (tmpOps store).length + 3 ≤ i) :
    DiskHolds (diskAfter store i) (toList store.entries) [] := by
  have hlen : (toList store.entries).length < 2 ^ 31 :=
    lt_of_le_of_lt (length_toList_le _) store.capacity_int
  have htake : (snapshotOps store).take i = snapshotOps store := by
    refine List.take_of_length_le ?_
    simpa [snapshotOps] using hi
  unfold diskAfter
  rw [htake, run_snapshotOps]
  exact ⟨Or.inl rfl, rfl, hlen, hs.fits, by simp⟩

/-! ## What each kind of file set recovers to -/

/-- Crash safety at a point is that the files' table has the store's map. -/
theorem crashSafe_iff {live' : List (CStr × Value)} {recs' : List LogRecord} {i : Nat}
    (hdisk : DiskHolds (diskAfter store i) live' recs') :
    CrashSafe store i ↔
      lookup CStr.slot (rebuilt live' recs' : Table CStr Value n) =
        lookup CStr.slot store.entries := by
  have hrec := kvRecover_of_diskHolds
    (emptied { store with disk := diskAfter store i }) hdisk
  constructor
  · rintro ⟨r, hr, hget⟩
    rw [hrec, Option.some_inj] at hr
    subst hr
    funext key
    exact hget key
  · intro hsame
    exact ⟨_, hrec, fun key => congrFun hsame key⟩

theorem touched_puts {live : List (CStr × Value)} {key : CStr} :
    Touched key (puts live) ↔ ∃ e ∈ live, e.1 = key := by
  unfold Touched puts
  constructor
  · rintro ⟨op, hmem, rfl⟩
    obtain ⟨e, he, rfl⟩ := List.mem_map.mp hmem
    exact ⟨e, he, rfl⟩
  · rintro ⟨e, he, rfl⟩
    exact ⟨_, List.mem_map_of_mem he, rfl⟩

/-- Puts leave every key they touch with a value. -/
theorem mapOps_puts_ne_none {live : List (CStr × Value)} {key : CStr}
    (hkey : Touched key (puts live)) (m : CStr → Option Value) :
    mapOps m (puts live) key ≠ none := by
  induction live using List.reverseRecOn generalizing m with
  | nil =>
      obtain ⟨op, hmem, _⟩ := hkey
      cases hmem
  | append_singleton live e ih =>
      have hsplit : puts (live ++ [e]) = puts live ++ [.put e.1 e.2] := by simp [puts]
      rw [hsplit, mapOps_append, mapOps_cons, mapOps_nil, Op.onMap]
      by_cases hk : key = e.1
      · subst hk
        simp [Op.key, Op.result]
      · have hlive : Touched key (puts live) := by
          obtain ⟨e', hmem, he'⟩ := touched_puts.mp hkey
          rcases List.mem_append.mp hmem with hmem | hmem
          · exact touched_puts.mpr ⟨e', hmem, he'⟩
          · rw [List.mem_singleton] at hmem
            subst hmem
            exact absurd he'.symm hk
        rw [Op.key, Function.update_of_ne hk]
        exact ih hlive m

/-- The log alone rebuilds the map exactly when it mentions every key of the old snapshot. -/
theorem crashSafe_removed (hs : InStep store live recs)
    (hsafe : SafeOps CStr.slot (empty : Table CStr Value n) recs) :
    CrashSafe store (removedAt store) ↔ ∀ e ∈ live, Touched e.1 recs := by
  have halone : lookup CStr.slot (rebuilt [] recs : Table CStr Value n) =
      mapOps (fun _ => none) recs := lookup_rebuilt hsafe
  rw [crashSafe_iff (diskHolds_removed hs.disk), halone, hs.map, recoveryOps, mapOps_append]
  constructor
  · intro hmap e he
    by_contra huntouched
    have hkey := congrFun hmap e.1
    rw [mapOps_of_not_touched huntouched, mapOps_of_not_touched huntouched] at hkey
    exact mapOps_puts_ne_none (touched_puts.mpr ⟨e, he, rfl⟩) _ hkey.symm
  · intro hall
    funext key
    by_cases hkey : Touched key recs
    · exact mapOps_of_touched hkey _ _
    · have hlive : ¬ Touched key (puts live) := by
        intro hput
        obtain ⟨e, he, rfl⟩ := touched_puts.mp hput
        exact hkey (hall e he)
      rw [mapOps_of_not_touched hkey, mapOps_of_not_touched hkey, mapOps_of_not_touched hlive]

/-- Replaying the old log on the new snapshot changes nothing. -/
theorem crashSafe_renamed (hs : InStep store live recs)
    (hsafe : SafeOps CStr.slot (rebuilt (toList store.entries) [] : Table CStr Value n) recs) :
    CrashSafe store (renamedAt store) := by
  have hops : recoveryOps (toList store.entries) [] = puts (toList store.entries) := by
    simp [recoveryOps]
  obtain ⟨hputs, hreload⟩ := hs.intact.reload
  have hI : Intact CStr.slot (rebuilt (toList store.entries) [] : Table CStr Value n) := by
    rw [rebuilt, hops]
    exact hputs.intact_applyOps intact_empty
  have hmap : lookup CStr.slot (rebuilt (toList store.entries) [] : Table CStr Value n) =
      lookup CStr.slot store.entries := by
    rw [rebuilt, hops]
    exact hreload
  have happ : (rebuilt (toList store.entries) recs : Table CStr Value n) =
      applyOps CStr.slot (rebuilt (toList store.entries) []) recs := by
    rw [rebuilt, rebuilt, hops, recoveryOps, applyOps_append]
  rw [crashSafe_iff (diskHolds_renamed hs), happ, hsafe.lookup_applyOps hI, hmap, hs.map,
    recoveryOps, mapOps_append, mapOps_mapOps]

/-- The log can be replayed on what the crash leaves: on the old snapshot, on nothing, or on the
new snapshot. -/
def CrashFits (store : KVStore n) (live : List (CStr × Value)) (recs : List LogRecord)
    (i : Nat) : Prop :=
  (i < removedAt store →
      SafeOps CStr.slot (empty : Table CStr Value n) (recoveryOps live recs)) ∧
    (i = removedAt store → SafeOps CStr.slot (empty : Table CStr Value n) recs) ∧
    (i = renamedAt store →
      SafeOps CStr.slot (rebuilt (toList store.entries) [] : Table CStr Value n) recs)

/-- Only the point between removing and renaming can lose keys: those the log does not mention. -/
theorem InStep.crashSafe_iff (hs : InStep store live recs) {i : Nat}
    (hfit : CrashFits store live recs i) :
    CrashSafe store i ↔ (i = removedAt store → ∀ e ∈ live, Touched e.1 recs) := by
  obtain ⟨hbefore, hremoved, hrenamed⟩ := hfit
  rcases Nat.lt_trichotomy i (removedAt store) with hlt | hrem | hgt
  · have hle : i ≤ (tmpOps store).length := Nat.lt_succ_iff.mp hlt
    have hsafe : CrashSafe store i :=
      (Storage.crashSafe_iff (diskHolds_before hs.disk hle)).mpr
        ((lookup_rebuilt (hbefore hlt)).trans hs.map.symm)
    exact iff_of_true hsafe fun hrem => absurd hrem (Nat.ne_of_lt hlt)
  · subst hrem
    rw [crashSafe_removed hs (hremoved rfl)]
    exact ⟨fun hall _ => hall, fun hall => hall rfl⟩
  · refine iff_of_true ?_ fun hrem => absurd hrem (Nat.ne_of_gt hgt)
    by_cases hren : i = renamedAt store
    · subst hren
      exact crashSafe_renamed hs (hrenamed rfl)
    · have hi : (tmpOps store).length + 3 ≤ i := by
        unfold removedAt at hgt
        unfold renamedAt at hren
        omega
      have hck := durable_checkpoint hs.tmpOpens hs.intact hs.fits
      exact (Storage.crashSafe_iff (diskHolds_finished hs hi)).mpr
        (hck.same.trans (by rw [entries_kvSnapshotInternal]))

end CrashPoints

/-- Every checkpoint of every history, the automatic ones included, at every point where the
process may stop. -/
theorem checkpoint_crashSafe_iff (hn : n < 2 ^ 31) (threshold : Int) (events : List Event)
    (hfit : EventsFit (freshStore hn threshold : KVStore n) events) :
    ∃ store, runEvents (freshStore hn threshold : KVStore n) events = some store ∧
      ∀ (call : KVCall) (s : KVStore n), call.Fits store → call.checkpointed store = some s →
        call.exec store = kvSnapshotInternal s ∧
          ∃ live recs, DiskHolds s.disk live recs ∧
            ∀ i, CrashFits s live recs i →
              (CrashSafe s i ↔ (i = removedAt s → ∀ e ∈ live, Touched e.1 recs)) := by
  obtain ⟨store, live, recs, hrun, hd⟩ := (durable_fresh hn threshold).run hfit
  refine ⟨store, hrun, ?_⟩
  intro call s hcall hck
  obtain ⟨recs', hs⟩ := hd.inStep.checkpointed hcall hck
  exact ⟨exec_of_checkpointed hd.logFp hck, live, recs', hs.disk,
    fun i hi => hs.crashSafe_iff hi⟩

theorem checkpoint_crashSafe_iff_second :
    ∃ store : KVStore 1024,
      runEvents (freshStore (by decide) (2 * 1024 * 1024))
          [.call (.put (CStr.lit "ab") rowA), .call .snapshot,
            .call (.put (CStr.lit "ab") rowB)] = some store ∧
        ∀ (call : KVCall) (s : KVStore 1024), call.Fits store →
          call.checkpointed store = some s →
            call.exec store = kvSnapshotInternal s ∧
              ∃ live recs, DiskHolds s.disk live recs ∧
                ∀ i, CrashFits s live recs i →
                  (CrashSafe s i ↔ (i = removedAt s → ∀ e ∈ live, Touched e.1 recs)) :=
  checkpoint_crashSafe_iff (by decide) (2 * 1024 * 1024) _ (by decide)

/-- A second checkpoint that stops after `remove` has lost everything the first one saved. -/
theorem checkpoint_loses_snapshot :
    ¬ CrashSafe (runCalls defaultStore [.put (CStr.lit "ab") rowA, .snapshot])
      (removedAt (runCalls defaultStore [.put (CStr.lit "ab") rowA, .snapshot])) := by
  rintro ⟨r, hr, hget⟩
  have hkey := hget (CStr.lit "ab")
  have hstore : kvGet (runCalls defaultStore [.put (CStr.lit "ab") rowA, .snapshot])
      (CStr.lit "ab") = some rowA := by decide
  have hlost : ∀ r ∈ kvRecover (emptied
      { runCalls defaultStore [.put (CStr.lit "ab") rowA, .snapshot] with
        disk := diskAfter (runCalls defaultStore [.put (CStr.lit "ab") rowA, .snapshot])
          (removedAt (runCalls defaultStore [.put (CStr.lit "ab") rowA, .snapshot])) }),
      kvGet r (CStr.lit "ab") = none := by decide +kernel
  rw [hlost r hr, hstore] at hkey
  cases hkey

end Storage
end InventixDB
