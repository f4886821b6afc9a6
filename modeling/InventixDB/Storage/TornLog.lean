import InventixDB.Lib.ProbedSlots
import InventixDB.Storage.Durability

/-!
# TornLog — recovery from a log that was cut off

The replay loop asks only the read of a key's length whether it came short.  So a log cut inside
the first five bytes of a record, its operation and the length of its key, recovers the records
before it, and one cut further on sends the loop on with a key, a size or data it has not read.
-/

namespace InventixDB
namespace Storage

open Lib.OpenAddressing
open Lib.ByteCodec

/-! ## Records before a cut -/

/-- The records that are whole when a log of `recs` is cut at byte `p`. -/
def wholeRecords : Nat → List LogRecord → List LogRecord
  | _, [] => []
  | p, record :: recs =>
      if (encodeRecord record).length ≤ p then
        record :: wholeRecords (p - (encodeRecord record).length) recs
      else []

/-- How many bytes of the record behind them are left. -/
def tornBytes : Nat → List LogRecord → Nat
  | _, [] => 0
  | p, record :: recs =>
      if (encodeRecord record).length ≤ p then tornBytes (p - (encodeRecord record).length) recs
      else p

/-- The bytes of a record that say what it does and how long its key is. -/
def recordHeadSize : Nat := 5

/-! ## Short reads -/

theorem readExact_of_short {m : Nat} {bs : List UInt8} (h : bs.length < m) :
    readExact m bs = none := by
  rw [readExact, if_neg (by omega)]

theorem readLE_of_short {w : Nat} {bs : List UInt8} (h : bs.length < w) : readLE w bs = none := by
  rw [readLE, readExact_of_short h, Option.map_none]

/-- A read that does not reach the cut. -/
theorem readLE_take {w p : Nat} {bs rest : List UInt8} {v : Nat} (hw : w ≤ p)
    (h : readLE w bs = some (v, rest)) : readLE w (bs.take p) = some (v, rest.take (p - w)) := by
  have hlen := length_readLE h
  obtain ⟨r, hr, heq⟩ := Option.map_eq_some_iff.mp h
  rw [readExact, if_pos (by omega)] at hr
  cases hr
  cases heq
  rw [readLE, readExact, if_pos (by rw [List.length_take]; omega), Option.map_some,
    List.take_take, Nat.min_eq_left hw, List.drop_take]

/-- The value of a put that was cut off is not read. -/
theorem readValue_of_cut {val : Value} (hval : val.data.length < 2 ^ 64) {p : Nat}
    (hp : p < (encodeValue val).length) : readValue ((encodeValue val).take p) = none := by
  have htype : val.type.toNat < 256 ^ 4 := by
    cases val.type <;> decide
  have hlen : (encodeValue val).length = 12 + val.data.length := by
    rw [encodeValue, List.length_append, List.length_append, length_leBytes, length_leBytes]
  have hread : readLE 8 (encodeValue val) =
      some (val.data.length, leBytes 4 val.type.toNat ++ val.data) := by
    rw [encodeValue, List.append_assoc, readLE_append (by omega)]
  have hread' := @readLE_append 4 val.type.toNat htype val.data
  rw [readValue]
  by_cases hsize : p < 8
  · rw [readLE_of_short (by rw [List.length_take]; omega)]
  · rw [readLE_take (by omega) hread]
    dsimp only
    by_cases htypes : p - 8 < 4
    · rw [readLE_of_short (by rw [List.length_take]; omega)]
    · rw [readLE_take (by omega) hread']
      dsimp only
      rw [ValueType.ofNat?_toNat, readExact_of_short (by rw [List.length_take]; omega)]

/-- Reading up to the key's length. -/
theorem readLE_encodeKey_take {key : CStr} (hkey : key.length < 2 ^ 31) {p : Nat} (hp : 4 ≤ p)
    (rest : List UInt8) :
    readLE 4 ((encodeKey key ++ rest).take p) =
      some (key.length, (key.val ++ rest).take (p - 4)) :=
  readLE_take hp (readLE_encodeKey hkey rest)

section Replay

variable {n : Nat} [NeZero n] {entries : Table CStr Value n} {record : LogRecord} {fuel p : Nat}

/-- A cut inside the head of a record ends the loop. -/
theorem replayLog_of_head (hp : p < (encodeRecord record).length) (hhead : p < recordHeadSize)
    (hfuel : p ≤ fuel) :
    replayLog fuel ((encodeRecord record).take p) entries = some entries := by
  obtain ⟨op, bs, hop⟩ : ∃ op bs, encodeRecord record = op :: bs := by
    cases record <;> exact ⟨_, _, rfl⟩
  rw [recordHeadSize] at hhead
  rw [hop] at hp ⊢
  cases p with
  | zero => cases fuel <;> rfl
  | succ p =>
      obtain ⟨fuel, rfl⟩ : ∃ m, fuel = m + 1 := ⟨fuel - 1, by omega⟩
      rw [List.take_succ_cons, replayLog, readLE_of_short (by rw [List.length_take]; omega)]

/-- A cut behind it does not. -/
theorem replayLog_of_body (hfits : RecordFits record) (hp : p < (encodeRecord record).length)
    (hhead : recordHeadSize ≤ p) (hfuel : p ≤ fuel) :
    replayLog fuel ((encodeRecord record).take p) entries = none := by
  rw [recordHeadSize] at hhead
  obtain ⟨fuel, rfl⟩ : ∃ m, fuel = m + 1 := ⟨fuel - 1, by omega⟩
  obtain ⟨p, rfl⟩ : ∃ m, p = m + 1 := ⟨p - 1, by omega⟩
  have hlenkey : ∀ key : CStr, (encodeKey key).length = 4 + key.length := by
    intro key
    rw [encodeKey, List.length_append, length_leBytes, CStr.length]
  have hkeyval : ∀ key : CStr, key.val.length = key.length := fun _ => rfl
  cases record with
  | put key val =>
      obtain ⟨hkey, hval⟩ := hfits
      rw [encodeRecord, List.length_cons, List.length_append, hlenkey] at hp
      rw [encodeRecord, List.take_succ_cons, replayLog, readLE_encodeKey_take hkey (by omega)]
      dsimp only
      by_cases hcut : p - 4 < key.length
      · rw [readKey, if_pos hkey, readExact_of_short (by rw [List.length_take]; omega)]
        rfl
      · have hrest : (key.val ++ encodeValue val).take (p - 4) =
            key.val ++ (encodeValue val).take (p - 4 - key.length) := by
          rw [List.take_append, List.take_of_length_le (by rw [hkeyval]; omega), hkeyval]
        rw [hrest, readKey_append hkey]
        dsimp only
        rw [if_pos rfl, readValue_of_cut hval (by omega)]
  | del key =>
      have hkey : key.length < 2 ^ 31 := hfits
      rw [encodeRecord, List.length_cons, hlenkey] at hp
      have happ : encodeKey key = encodeKey key ++ [] := (List.append_nil _).symm
      rw [encodeRecord, List.take_succ_cons, replayLog, happ,
        readLE_encodeKey_take hkey (by omega), List.append_nil]
      dsimp only
      rw [readKey, if_pos hkey, readExact_of_short (by rw [List.length_take, hkeyval]; omega)]
      rfl

/-- The loop over a log cut at byte `p`. -/
theorem replayLog_take (recs : List LogRecord) (hfits : ∀ r ∈ recs, RecordFits r)
    (entries : Table CStr Value n) (p fuel : Nat)
    (hfuel : ((encodeLog recs).take p).length ≤ fuel) :
    replayLog fuel ((encodeLog recs).take p) entries =
      if tornBytes p recs < recordHeadSize then
        some (applyOps CStr.slot entries (wholeRecords p recs))
      else none := by
  induction recs generalizing entries p fuel with
  | nil =>
      have hnil : (encodeLog []).take p = [] := by simp [encodeLog]
      rw [hnil, tornBytes, if_pos (by decide)]
      cases fuel <;> rfl
  | cons record recs ih =>
      have hrec := hfits record List.mem_cons_self
      have hsplit : encodeLog (record :: recs) = encodeRecord record ++ encodeLog recs := rfl
      rw [hsplit] at hfuel ⊢
      rw [tornBytes, wholeRecords]
      by_cases hle : (encodeRecord record).length ≤ p
      · rw [if_pos hle, if_pos hle]
        have hcut : (encodeRecord record ++ encodeLog recs).take p =
            encodeRecord record ++
              (encodeLog recs).take (p - (encodeRecord record).length) := by
          rw [List.take_append, List.take_of_length_le hle]
        rw [hcut, List.length_append] at hfuel
        have hpos : 0 < (encodeRecord record).length := by
          cases record <;> simp [encodeRecord]
        obtain ⟨fuel, rfl⟩ : ∃ m, fuel = m + 1 := ⟨fuel - 1, by omega⟩
        have htail := fun entries : Table CStr Value n =>
          ih (fun r hr => hfits r (List.mem_cons_of_mem _ hr)) entries
            (p - (encodeRecord record).length) fuel (by omega)
        rw [hcut]
        cases record with
        | put key val =>
            obtain ⟨hkey, hval⟩ := hrec
            rw [encodeRecord, List.cons_append, List.append_assoc, replayLog,
              readLE_encodeKey hkey]
            dsimp only
            rw [readKey_append hkey]
            dsimp only
            rw [if_pos rfl, readValue_append hval]
            exact htail _
        | del key =>
            have hkey : key.length < 2 ^ 31 := hrec
            rw [encodeRecord, List.cons_append, replayLog, readLE_encodeKey hkey]
            dsimp only
            rw [readKey_append hkey]
            dsimp only
            rw [if_neg (by decide), if_pos rfl]
            exact htail _
      · rw [if_neg hle, if_neg hle]
        have hcut : (encodeRecord record ++ encodeLog recs).take p =
            (encodeRecord record).take p := List.take_append_of_le_length (by omega)
        have hlen : ((encodeRecord record).take p).length = p := by
          rw [List.length_take]
          omega
        rw [hcut] at hfuel ⊢
        rw [hlen] at hfuel
        by_cases hhead : p < recordHeadSize
        · rw [if_pos hhead, replayLog_of_head (by omega) hhead hfuel]
          rfl
        · rw [if_neg hhead, replayLog_of_body hrec (by omega) (by omega) hfuel]

end Replay

/-! ## The files after any run of calls -/

variable {n : Nat} [NeZero n]

/-- The entries of the snapshot and the records of the log. -/
structure Files where
  live : List (CStr × Value)
  recs : List LogRecord

/-- The files hold a snapshot and a log, whatever became of the table's chains. -/
structure LogHolds (store : KVStore n) (files : Files) : Prop where
  logFp : store.logFp = true
  tmpOpens : store.disk.tmpOpens = true
  fits : ∀ i e, store.entries i = some e → Fits e.1 e.2
  disk : DiskHolds store.disk files.live files.recs

/-- A put key and its value are as long as their length fields allow. -/
def KVCall.SizesFit : KVCall → Prop
  | .put key val => Storage.Fits key val
  | _ => True

instance : (call : KVCall) → Decidable call.SizesFit
  | .put key val => inferInstanceAs (Decidable (Storage.Fits key val))
  | .delete _ => inferInstanceAs (Decidable True)
  | .get _ => inferInstanceAs (Decidable True)
  | .snapshot => inferInstanceAs (Decidable True)

section Files

variable {store : KVStore n} {files : Files}

omit [NeZero n] in
theorem logHolds_snapshot (hopen : store.disk.tmpOpens = true)
    (hfits : ∀ i e, store.entries i = some e → Fits e.1 e.2) :
    LogHolds (kvSnapshotInternal store) { live := toList store.entries, recs := [] } := by
  have hstore : kvSnapshotInternal store =
      { store with
        logFp := true
        logSize := 0
        disk :=
          { store.disk with
            snap := some (encodeSnap (toList store.entries))
            snapTmp := none
            log := some [] } } := by
    rw [kvSnapshotInternal, if_pos hopen, run_snapshotOps]
  have hlen : (toList store.entries).length < 2 ^ 31 :=
    lt_of_le_of_lt (length_toList_le _) store.capacity_int
  have hlive : ∀ e ∈ toList store.entries, Fits e.1 e.2 := by
    rintro ⟨key, val⟩ he
    obtain ⟨i, hi⟩ := mem_toList.mp he
    exact hfits i _ hi
  rw [hstore]
  exact ⟨rfl, hopen, hfits, Or.inl rfl, rfl, hlen, hlive, by simp⟩

/-- The files once a record was logged, with a checkpoint or without. -/
def filesAppended (store : KVStore n) (record : LogRecord) (files : Files) : Files :=
  if Checkpoints store record then { live := toList store.entries, recs := [] }
  else { files with recs := files.recs ++ [record] }

def KVCall.leaves (store : KVStore n) (files : Files) : KVCall → Files
  | .put key val =>
      filesAppended
        (kvPutInternal { store with btreeTable := btreePut store.btreeTable key val } key val)
        (.put key val) files
  | .delete key =>
      match probe CStr.slot store.entries key with
      | .hit i =>
          filesAppended { store with entries := Function.update store.entries i none }
            (.del key) files
      | _ => files
  | .get _ => files
  | .snapshot => { live := toList store.entries, recs := [] }

/-- What the calls leave in the files of a store. -/
def filesAfter : KVStore n → Files → List KVCall → Files
  | _, files, [] => files
  | store, files, call :: calls => filesAfter (call.exec store) (call.leaves store files) calls

omit [NeZero n] in
theorem LogHolds.kvAppendLog (hl : LogHolds store files) {record : LogRecord}
    (hrec : RecordFits record) :
    LogHolds (Storage.kvAppendLog store record) (filesAppended store record files) := by
  rw [kvAppendLog_eq, if_pos hl.logFp, filesAppended]
  by_cases hpast : Checkpoints store record
  · rw [if_pos hpast, if_pos hpast]
    have hfits : ∀ i e, (appended store record).entries i = some e → Fits e.1 e.2 := hl.fits
    exact logHolds_snapshot hl.tmpOpens hfits
  · rw [if_neg hpast, if_neg hpast]
    exact ⟨hl.logFp, hl.tmpOpens, hl.fits, hl.disk.appendLog hrec⟩

theorem LogHolds.exec (hl : LogHolds store files) {call : KVCall} (hsizes : call.SizesFit) :
    LogHolds (call.exec store) (call.leaves store files) := by
  cases call with
  | put key val =>
      have hfit : Fits key val := hsizes
      have hentries : ∀ i e, insert CStr.slot store.entries key val i = some e →
          Fits e.1 e.2 := by
        intro i e he
        rcases insert_slot he with hold | rfl
        · exact hl.fits i e hold
        · exact hfit
      have hput : LogHolds
          (kvPutInternal { store with btreeTable := btreePut store.btreeTable key val } key val)
          files := ⟨hl.logFp, hl.tmpOpens, hentries, hl.disk⟩
      have hrec : RecordFits (.put key val) := hfit
      exact hput.kvAppendLog hrec
  | delete key =>
      rw [KVCall.exec, kvDelete, KVCall.leaves]
      cases hp : probe CStr.slot store.entries key with
      | hit i =>
          obtain ⟨⟨val, hval⟩, -⟩ := probe_eq_hit_iff.mp hp
          have hrec : RecordFits (.del key) := (hl.fits i _ hval).1
          have hentries : ∀ j e, Function.update store.entries i none j = some e →
              Fits e.1 e.2 := by
            intro j e he
            by_cases hij : j = i
            · rw [hij, Function.update_self] at he
              cases he
            · rw [Function.update_of_ne hij] at he
              exact hl.fits j e he
          have hdel : LogHolds { store with entries := Function.update store.entries i none }
              files := ⟨hl.logFp, hl.tmpOpens, hentries, hl.disk⟩
          exact hdel.kvAppendLog hrec
      | free i => exact hl
      | full => exact hl
  | get key => exact hl
  | snapshot => exact logHolds_snapshot hl.tmpOpens hl.fits

theorem LogHolds.runCalls (hl : LogHolds store files) {calls : List KVCall}
    (hsizes : ∀ call ∈ calls, call.SizesFit) :
    LogHolds (Storage.runCalls store calls) (filesAfter store files calls) := by
  induction calls generalizing store files with
  | nil => exact hl
  | cons call calls ih =>
      exact ih (hl.exec (hsizes call List.mem_cons_self))
        fun c hc => hsizes c (List.mem_cons_of_mem _ hc)

end Files

omit [NeZero n] in
theorem logHolds_fresh (hn : n < 2 ^ 31) (threshold : Int) :
    LogHolds (freshStore hn threshold : KVStore n) { live := [], recs := [] } where
  logFp := rfl
  tmpOpens := rfl
  fits i e he := nomatch he
  disk := ⟨Or.inr ⟨rfl, rfl⟩, rfl, by decide, by simp, by simp⟩

/-! ## Recovery from a cut log -/

/-- The store a new process makes of the files, with the log cut at byte `p`. -/
def recoverCut (store : KVStore n) (p : Nat) : Option (KVStore n) :=
  kvRecover (emptied { store with disk :=
    { store.disk with log := some ((store.disk.log.getD []).take p) } })

/-- The operations a recovery has to apply: the snapshot's and the whole records before the cut. -/
def wholeOps (files : Files) (p : Nat) : List LogRecord :=
  recoveryOps files.live (wholeRecords p files.recs)

/-- It holds the map these operations make. -/
def RecoversWhole (store : KVStore n) (files : Files) (p : Nat) : Prop :=
  ∃ r, recoverCut store p = some r ∧
    ∀ key, kvGet r key = mapOps (fun _ => none) (wholeOps files p) key

theorem recoverCut_eq {store : KVStore n} {files : Files} (hl : LogHolds store files) (p : Nat) :
    recoverCut store p =
      if tornBytes p files.recs < recordHeadSize then
        some { store with
          entries := applyOps CStr.slot empty (wholeOps files p)
          disk := { store.disk with log := some ((store.disk.log.getD []).take p) } }
      else none := by
  have hload : loadSnapshot store.disk.snap (empty : Table CStr Value n) =
      some (applyOps CStr.slot empty (puts files.live)) := by
    rcases hl.disk.snap with hsnap | ⟨hsnap, hlive⟩
    · rw [hsnap, loadSnapshot_encode files.live hl.disk.live_count hl.disk.live_fits]
    · rw [hsnap, hlive]
      rfl
  rw [recoverCut, kvRecover]
  dsimp only [emptied]
  rw [hload]
  dsimp only
  rw [Option.getD_some, hl.disk.log, replayLog_take files.recs hl.disk.recs_fit _ p _ le_rfl]
  by_cases hhead : tornBytes p files.recs < recordHeadSize
  · rw [if_pos hhead, if_pos hhead, Option.map_some, wholeOps, recoveryOps, applyOps_append]
  · rw [if_neg hhead, if_neg hhead, Option.map_none]

theorem recoversWhole_iff {store : KVStore n} {files : Files} (hl : LogHolds store files) {p : Nat}
    (hsafe : SafeOps CStr.slot (empty : Table CStr Value n) (wholeOps files p)) :
    RecoversWhole store files p ↔ tornBytes p files.recs < recordHeadSize := by
  rw [RecoversWhole, recoverCut_eq hl]
  by_cases hhead : tornBytes p files.recs < recordHeadSize
  · rw [if_pos hhead]
    refine ⟨fun _ => hhead, fun _ => ⟨_, rfl, fun key => ?_⟩⟩
    have hlookup := hsafe.lookup_applyOps intact_empty
    have hnone : lookup CStr.slot (empty : Table CStr Value n) = fun _ => none :=
      funext fun k => lookup_empty
    rw [hnone] at hlookup
    exact congrFun hlookup key
  · rw [if_neg hhead]
    refine ⟨?_, fun h => absurd h hhead⟩
    rintro ⟨r, hr, -⟩
    cases hr

/-- Whatever was put and deleted, the files hold a snapshot and a log of records, and a cut of the
log recovers the whole records before it exactly if it is in the head of a record. -/
theorem recoversWhole_iff_torn (hn : n < 2 ^ 31) (threshold : Int) (calls : List KVCall)
    (hsizes : ∀ call ∈ calls, call.SizesFit) (p : Nat)
    (hsafe : SafeOps CStr.slot (empty : Table CStr Value n)
      (wholeOps (filesAfter (freshStore hn threshold : KVStore n) { live := [], recs := [] } calls)
        p)) :
    let store : KVStore n := freshStore hn threshold
    let files := filesAfter store { live := [], recs := [] } calls
    DiskHolds (runCalls store calls).disk files.live files.recs ∧
      (RecoversWhole (runCalls store calls) files p ↔
        tornBytes p files.recs < recordHeadSize) := by
  have hl := (logHolds_fresh hn threshold).runCalls hsizes
  exact ⟨hl.disk, recoversWhole_iff hl hsafe⟩

/-- A log of two puts, cut behind the operation byte of the second one. -/
theorem recoversWhole_iff_torn_second :
    let store : KVStore 1024 := freshStore (by decide) (2 * 1024 * 1024)
    let files := filesAfter store { live := [], recs := [] }
      [.put (CStr.lit "a") rowA, .put (CStr.lit "b") rowB]
    DiskHolds (runCalls store
        [.put (CStr.lit "a") rowA, .put (CStr.lit "b") rowB]).disk files.live files.recs ∧
      (RecoversWhole (runCalls store [.put (CStr.lit "a") rowA, .put (CStr.lit "b") rowB])
          files 20 ↔
        tornBytes 20 files.recs < recordHeadSize) :=
  recoversWhole_iff_torn (by decide) _ [.put (CStr.lit "a") rowA, .put (CStr.lit "b") rowB]
    (by decide) 20 (by decide)

/-- One put, cut before its last byte: the loop goes on to store a byte it has not read. -/
theorem torn_put_is_applied :
    let store := runCalls defaultStore [.put (CStr.lit "a") rowA]
    store.disk.log = some (encodeLog [.put (CStr.lit "a") rowA]) ∧
      ¬ RecoversWhole store { live := [], recs := [.put (CStr.lit "a") rowA] } 18 := by
  refine ⟨by decide, ?_⟩
  rintro ⟨r, hr, -⟩
  have hnone :
      (recoverCut (runCalls defaultStore [.put (CStr.lit "a") rowA]) 18).isNone = true := by
    decide
  rw [hr] at hnone
  cases hnone

end Storage
end InventixDB
