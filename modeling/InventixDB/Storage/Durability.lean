import InventixDB.Storage.MapRefinement
import InventixDB.Storage.Recovery

/-!
# Durability — the files hold the map of the store

`Durable` ties a store to its files: what `kv_recover` rebuilds from them is intact and has the
same map as the store, although its slots may differ.  Every call of a history keeps it,
automatic checkpoints and restarts included, as long as no delete cuts a probe chain, neither
in the store nor in the table its record will be replayed on.
-/

namespace InventixDB
namespace Storage

open Lib.OpenAddressing

variable {n : Nat} [NeZero n]

/-! ## Stores in step with their files -/

/-- The store before anything is recovered into it. -/
def emptied (store : KVStore n) : KVStore n :=
  { store with entries := empty }

/-- The table `kv_recover` rebuilds from a snapshot of `live` and a log of `recs`. -/
def rebuilt (live : List (CStr × Value)) (recs : List LogRecord) : Table CStr Value n :=
  applyOps CStr.slot empty (recoveryOps live recs)

/-- The store and the table its files rebuild are intact and hold one map. -/
structure Durable (store : KVStore n) (live : List (CStr × Value)) (recs : List LogRecord) :
    Prop where
  logFp : store.logFp = true
  tmpOpens : store.disk.tmpOpens = true
  intact : Intact CStr.slot store.entries
  fits : ∀ e ∈ toList store.entries, Fits e.1 e.2
  disk : DiskHolds store.disk live recs
  safe : SafeOps CStr.slot (empty : Table CStr Value n) (recoveryOps live recs)
  same : lookup CStr.slot (rebuilt live recs : Table CStr Value n) =
    lookup CStr.slot store.entries

section Durable

variable {store : KVStore n} {live : List (CStr × Value)} {recs : List LogRecord}

theorem Durable.intact_rebuilt (hd : Durable store live recs) :
    Intact CStr.slot (rebuilt live recs : Table CStr Value n) := by
  exact hd.safe.intact_applyOps intact_empty

theorem Durable.kvRecover_emptied (hd : Durable store live recs) :
    kvRecover (emptied store) = some { store with entries := rebuilt live recs } := by
  exact kvRecover_of_diskHolds (emptied store) hd.disk

/-- Recovery gives every key the value it has in the store. -/
theorem Durable.kvGet_recovered (hd : Durable store live recs) :
    ∃ r, kvRecover (emptied store) = some r ∧ ∀ key, kvGet r key = kvGet store key := by
  refine ⟨_, hd.kvRecover_emptied, ?_⟩
  intro key
  exact congrFun hd.same key

/-- What is in a table after a fitting change was in it before, or is what was just put. -/
theorem fits_apply {entries : Table CStr Value n} (hI : Intact CStr.slot entries)
    (hfits : ∀ e ∈ toList entries, Fits e.1 e.2) {op : LogRecord}
    (hop : op.Fits CStr.slot entries) (hrec : RecordFits op) :
    ∀ e ∈ toList (op.apply CStr.slot entries), Fits e.1 e.2 := by
  rintro ⟨key, val⟩ he
  obtain ⟨hI', hl⟩ := hI.apply hop
  rw [hI'.mem_toList_iff, hl] at he
  by_cases hkey : key = op.key
  · subst hkey
    rw [Op.onMap, Function.update_self] at he
    cases op with
    | put k v =>
        cases he
        exact hrec
    | del k => cases he
  · rw [Op.onMap, Function.update_of_ne hkey] at he
    exact hfits (key, val) (hI.mem_toList_iff.mpr he)

/-- A checkpoint of an intact store puts its files in step with it. -/
theorem durable_checkpoint (hopen : store.disk.tmpOpens = true)
    (hI : Intact CStr.slot store.entries) (hfits : ∀ e ∈ toList store.entries, Fits e.1 e.2) :
    Durable (kvSnapshotInternal store) (toList store.entries) [] := by
  have hstore : kvSnapshotInternal store =
      { store with
        logFp := true
        logSize := 0
        disk :=
          { store.disk with
            snap := some (encodeSnap (toList store.entries))
            snapTmp := none
            log := some [] } } := by
    rw [kvSnapshotInternal, if_pos hopen, run_snapshotOps]
  have hops : recoveryOps (toList store.entries) [] = puts (toList store.entries) := by
    simp [recoveryOps]
  obtain ⟨hsafe, hreload⟩ := hI.reload
  have hlen : (toList store.entries).length < 2 ^ 31 :=
    lt_of_le_of_lt (length_toList_le _) store.capacity_int
  rw [hstore]
  refine
    { logFp := rfl
      tmpOpens := hopen
      intact := hI
      fits := hfits
      disk := ⟨Or.inl rfl, rfl, hlen, hfits, by simp⟩
      safe := ?_
      same := ?_ }
  · rw [hops]
    exact hsafe
  · rw [rebuilt, hops]
    exact hreload

/-! ## One change of the store -/

/-- Appending `record` makes the log pass the checkpoint threshold. -/
def Checkpoints (store : KVStore n) (record : LogRecord) : Prop :=
  store.checkpointThreshold < (store.logSize + (encodeRecord record).length : Nat)

instance (store : KVStore n) (record : LogRecord) : Decidable (Checkpoints store record) := by
  unfold Checkpoints
  infer_instance

/-- The store with `record` in its log. -/
def appended (store : KVStore n) (record : LogRecord) : KVStore n :=
  { store with
    logSize := store.logSize + (encodeRecord record).length
    disk := store.disk.appendLog (encodeRecord record) }

omit [NeZero n] in
theorem kvAppendLog_eq (store : KVStore n) (record : LogRecord) :
    kvAppendLog store record =
      if store.logFp then
        if Checkpoints store record then kvSnapshotInternal (appended store record)
        else appended store record
      else store := rfl

/-- A change fits both tables, the one in memory and the one rebuilt from the files. -/
theorem Durable.append (hd : Durable store live recs) (btreeTable : BTreeTable) (op : LogRecord)
    (hop : op.Fits CStr.slot store.entries) (hrec : RecordFits op)
    (hrebuilt : ¬ Checkpoints store op →
      op.Fits CStr.slot (rebuilt live recs : Table CStr Value n)) :
    ∃ live' recs', Durable
      (kvAppendLog
        { store with
          btreeTable := btreeTable
          entries := op.apply CStr.slot store.entries } op) live' recs' := by
  obtain ⟨hI, hl⟩ := hd.intact.apply hop
  have hfits := fits_apply hd.intact hd.fits hop hrec
  rw [kvAppendLog_eq, if_pos hd.logFp]
  split
  case isTrue hck => exact ⟨_, _, durable_checkpoint hd.tmpOpens hI hfits⟩
  case isFalse hck =>
    have hfit' := hrebuilt hck
    have hops : recoveryOps live (recs ++ [op]) = recoveryOps live recs ++ [op] := by
      simp [recoveryOps]
    refine ⟨live, recs ++ [op],
      { logFp := hd.logFp
        tmpOpens := hd.tmpOpens
        intact := hI
        fits := hfits
        disk := hd.disk.appendLog hrec
        safe := ?_
        same := ?_ }⟩
    · rw [hops, SafeOps.append]
      exact ⟨hd.safe, hfit', trivial⟩
    · have hlast : (rebuilt live (recs ++ [op]) : Table CStr Value n) =
          op.apply CStr.slot (rebuilt live recs) := by
        rw [rebuilt, hops, applyOps_append]
        rfl
      calc lookup CStr.slot (rebuilt live (recs ++ [op]))
          = op.onMap (lookup CStr.slot (rebuilt live recs)) := by
            rw [hlast, (hd.intact_rebuilt.apply hfit').2]
        _ = lookup CStr.slot (op.apply CStr.slot store.entries) := by
            rw [hd.same, hl]

/-! ## One call -/

/-- The call fits the store: a put finds room and its lengths fit their fields; a delete cuts no
probe chain, in the store or in the table its record will be replayed on. -/
def KVCall.Fits (store : KVStore n) : KVCall → Prop
  | .put key val =>
      Storage.Fits key val ∧ probe CStr.slot store.entries key ≠ .full
  | .delete key =>
      ¬ CutsChain CStr.slot store.entries key ∧
        (¬ Checkpoints store (.del key) →
          ∀ r ∈ kvRecover (emptied store), ¬ CutsChain CStr.slot r.entries key)
  | .get _ => True
  | .snapshot => True

instance (store : KVStore n) : (call : KVCall) → Decidable (call.Fits store)
  | .put _ _ =>
      inferInstanceAs (Decidable (_ ∧ _))
  | .delete key =>
      inferInstanceAs
        (Decidable (¬ CutsChain CStr.slot store.entries key ∧
          (¬ Checkpoints store (.del key) →
            ∀ r ∈ kvRecover (emptied store), ¬ CutsChain CStr.slot r.entries key)))
  | .get _ => inferInstanceAs (Decidable True)
  | .snapshot => inferInstanceAs (Decidable True)

/-- A call that fits keeps the files in step with the store. -/
theorem Durable.exec (hd : Durable store live recs) {call : KVCall} (hfit : call.Fits store) :
    ∃ live' recs', Durable (call.exec store) live' recs' := by
  cases call with
  | put key val =>
      obtain ⟨hsize, hroom⟩ := hfit
      -- The rebuilt table holds the same keys, so it has room for `key` as well.
      have hroom' : probe CStr.slot (rebuilt live recs : Table CStr Value n) key ≠ .full := by
        intro hfull
        exact hroom (hd.intact_rebuilt.full_of_lookup_eq hd.intact hd.same hfull)
      exact hd.append _ (.put key val) hroom hsize fun _ => hroom'
  | delete key =>
      obtain ⟨hcut, hcut'⟩ := hfit
      change ∃ live' recs', Durable (kvDelete store key) live' recs'
      unfold kvDelete
      cases hp : probe CStr.slot store.entries key with
      | hit i =>
          obtain ⟨⟨val, hval⟩, _⟩ := probe_eq_hit_iff.mp hp
          have hrec : RecordFits (.del key) := (hd.fits (key, val) (mem_toList.mpr ⟨i, hval⟩)).1
          have happ := hd.append store.btreeTable (.del key) hcut hrec fun hck =>
            hcut' hck _ hd.kvRecover_emptied
          rwa [Op.apply, erase_of_hit hp] at happ
      | free i => exact ⟨live, recs, hd⟩
      | full => exact ⟨live, recs, hd⟩
  | get key => exact ⟨live, recs, hd⟩
  | snapshot => exact ⟨_, _, durable_checkpoint hd.tmpOpens hd.intact hd.fits⟩

/-- A new process on the files of the old one starts from what they rebuild. -/
theorem Durable.kvCreate (hd : Durable store live recs) (hn : n < 2 ^ 31) (threshold : Int)
    (btreeTable : BTreeTable) :
    ∃ s, Storage.kvCreate hn threshold btreeTable store.disk = some s ∧
      Durable s live recs := by
  have hrec := kvRecover_of_diskHolds (kvEmpty hn threshold btreeTable store.disk) hd.disk
  refine ⟨_, by rw [Storage.kvCreate, hrec, Option.map_some], ?_⟩
  refine
    { logFp := rfl
      tmpOpens := hd.tmpOpens
      intact := hd.intact_rebuilt
      fits := ?_
      disk := ⟨hd.disk.snap, ?_, hd.disk.live_count, hd.disk.live_fits, hd.disk.recs_fit⟩
      safe := hd.safe
      same := rfl }
  · rintro ⟨key, val⟩ he
    refine hd.fits (key, val) ?_
    rw [hd.intact.mem_toList_iff, ← hd.same]
    exact hd.intact_rebuilt.mem_toList_iff.mp he
  · rw [← hd.disk.log]
    simp [Disk.appendLog, kvEmpty]

end Durable

theorem durable_fresh (hn : n < 2 ^ 31) (threshold : Int) :
    Durable (freshStore hn threshold : KVStore n) [] [] where
  logFp := rfl
  tmpOpens := rfl
  intact := intact_empty
  fits := by
    rintro ⟨key, val⟩ he
    obtain ⟨i, hi⟩ := mem_toList.mp he
    cases hi
  disk := ⟨Or.inr ⟨rfl, rfl⟩, rfl, by decide, by simp, by simp⟩
  safe := trivial
  same := rfl

/-! ## Whole histories -/

/-- A call, or a new process started on the files the old one left. -/
inductive Event
  | call (c : KVCall)
  | restart (threshold : Int) (btreeTable : BTreeTable)
  deriving DecidableEq

def Event.exec (store : KVStore n) : Event → Option (KVStore n)
  | .call c => some (c.exec store)
  | .restart threshold btreeTable =>
      kvCreate store.capacity_int threshold btreeTable store.disk

def Event.Fits (store : KVStore n) : Event → Prop
  | .call c => c.Fits store
  | .restart _ _ => True

instance (store : KVStore n) : (e : Event) → Decidable (e.Fits store)
  | .call c => inferInstanceAs (Decidable (c.Fits store))
  | .restart _ _ => inferInstanceAs (Decidable True)

def runEvents : KVStore n → List Event → Option (KVStore n)
  | store, [] => some store
  | store, e :: es => (e.exec store).bind fun store' => runEvents store' es

/-- Every event fits the store it meets. -/
def EventsFit : KVStore n → List Event → Prop
  | _, [] => True
  | store, e :: es => e.Fits store ∧ ∀ store' ∈ e.exec store, EventsFit store' es

instance decidableEventsFit : (store : KVStore n) → (events : List Event) →
    Decidable (EventsFit store events)
  | _, [] => isTrue trivial
  | _, _ :: es =>
      haveI : DecidablePred fun store' : KVStore n => EventsFit store' es :=
        fun store' => decidableEventsFit store' es
      inferInstanceAs (Decidable (_ ∧ _))

theorem Durable.event {store : KVStore n} {live : List (CStr × Value)} {recs : List LogRecord}
    (hd : Durable store live recs) {e : Event} (hfit : e.Fits store) :
    ∃ store' live' recs', e.exec store = some store' ∧ Durable store' live' recs' := by
  cases e with
  | call c =>
      obtain ⟨live', recs', hd'⟩ := hd.exec hfit
      exact ⟨_, live', recs', rfl, hd'⟩
  | restart threshold btreeTable =>
      obtain ⟨store', hcreate, hd'⟩ := hd.kvCreate store.capacity_int threshold btreeTable
      exact ⟨store', live, recs, hcreate, hd'⟩

theorem Durable.run {store : KVStore n} {live : List (CStr × Value)} {recs : List LogRecord}
    (hd : Durable store live recs) {events : List Event} (hfit : EventsFit store events) :
    ∃ store' live' recs', runEvents store events = some store' ∧ Durable store' live' recs' := by
  induction events generalizing store live recs with
  | nil => exact ⟨store, live, recs, rfl, hd⟩
  | cons e es ih =>
      obtain ⟨hone, hrest⟩ := hfit
      obtain ⟨store', live', recs', hexec, hd'⟩ := hd.event hone
      obtain ⟨store'', live'', recs'', hrun, hd''⟩ := ih hd' (hrest store' hexec)
      refine ⟨store'', live'', recs'', ?_, hd''⟩
      rw [runEvents, hexec, Option.bind_some, hrun]

/-- After a history whose events fit, recovery agrees with the store on every key. -/
theorem kvRecover_agrees (hn : n < 2 ^ 31) (threshold : Int) (events : List Event)
    (hfit : EventsFit (freshStore hn threshold : KVStore n) events) :
    ∃ store r, runEvents (freshStore hn threshold : KVStore n) events = some store ∧
      kvRecover (emptied store) = some r ∧ ∀ key, kvGet r key = kvGet store key := by
  obtain ⟨store, live, recs, hrun, hd⟩ := (durable_fresh hn threshold).run hfit
  obtain ⟨r, hrec, hget⟩ := hd.kvGet_recovered
  exact ⟨store, r, hrun, hrec, hget⟩

theorem kvRecover_agrees_after_restart :
    ∃ store r : KVStore 1024,
      runEvents (freshStore (by decide) (2 * 1024 * 1024))
          [.call (.put (CStr.lit "ab") rowA), .call (.put (CStr.lit "bA") rowB),
            .call (.delete (CStr.lit "bA")), .restart 40 { cells := [] },
            .call (.put (CStr.lit "bA") rowA), .call (.delete (CStr.lit "bA"))] = some store ∧
        kvRecover (emptied store) = some r ∧ ∀ key, kvGet r key = kvGet store key :=
  kvRecover_agrees (by decide) (2 * 1024 * 1024) _ (by decide +kernel)

/-- A key the store lost to a cut chain comes back with the snapshot. -/
theorem kvRecover_revives_lost_key :
    kvGet (runCalls defaultStore
        [.put (CStr.lit "ab") rowA, .put (CStr.lit "bA") rowB, .delete (CStr.lit "ab"),
          .snapshot]) (CStr.lit "bA") = none ∧
      (kvRecover (emptied (runCalls defaultStore
        [.put (CStr.lit "ab") rowA, .put (CStr.lit "bA") rowB, .delete (CStr.lit "ab"),
          .snapshot]))).map (fun r => kvGet r (CStr.lit "bA")) = some (some rowB) := by
  refine ⟨by decide +kernel, by decide +kernel⟩

end Storage
end InventixDB
