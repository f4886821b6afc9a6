import InventixDB.Storage.KVStore

/-!
# Recovery — reading back what the store wrote

`kv_recover` on files the store wrote is a run of table operations: the puts of the snapshot's
entries, then the records of the log (`kvRecover_of_diskHolds`).  The bounds in `Fits` are the
widths of the length fields.
-/

namespace InventixDB
namespace Storage

open Lib.OpenAddressing
open Lib.ByteCodec

variable {n : Nat} [NeZero n]

/-! ## Reading one record -/

/-- The key's length fits an `int`, the value's length a `size_t`. -/
def Fits (key : CStr) (val : Value) : Prop :=
  key.length < 2 ^ 31 ∧ val.data.length < 2 ^ 64

instance (key : CStr) (val : Value) : Decidable (Fits key val) := by
  unfold Fits
  infer_instance

def RecordFits : LogRecord → Prop
  | .put key val => Fits key val
  | .del key => key.length < 2 ^ 31

instance : (record : LogRecord) → Decidable (RecordFits record)
  | .put key val => inferInstanceAs (Decidable (Fits key val))
  | .del key => inferInstanceAs (Decidable (key.length < 2 ^ 31))

theorem readLE_encodeKey {key : CStr} (hkey : key.length < 2 ^ 31) (rest : List UInt8) :
    readLE 4 (encodeKey key ++ rest) = some (key.length, key.val ++ rest) := by
  unfold encodeKey
  rw [List.append_assoc, readLE_append (by omega)]

theorem readKey_append {key : CStr} (hkey : key.length < 2 ^ 31) (rest : List UInt8) :
    readKey key.length (key.val ++ rest) = some (key, rest) := by
  unfold readKey
  rw [if_pos hkey, CStr.length, readExact_append, Option.map_some, CStr.ofBytes_val]

@[simp]
theorem ValueType.ofNat?_toNat (type : ValueType) : ValueType.ofNat? type.toNat = some type := by
  cases type <;> rfl

theorem readValue_append {val : Value} (hval : val.data.length < 2 ^ 64) (rest : List UInt8) :
    readValue (encodeValue val ++ rest) = some (val, rest) := by
  have htype : val.type.toNat < 256 ^ 4 := by
    cases val.type <;> decide
  unfold readValue encodeValue
  rw [List.append_assoc, List.append_assoc, readLE_append (by omega)]
  dsimp only
  rw [readLE_append htype]
  dsimp only
  rw [ValueType.ofNat?_toNat, readExact_append]

/-! ## Reading a whole file -/

/-- The bytes of a snapshot file with these entries. -/
def encodeSnap (live : List (CStr × Value)) : List UInt8 :=
  leBytes 4 live.length ++ live.flatMap fun e => encodeKey e.1 ++ encodeValue e.2

/-- The puts that load a list of entries. -/
def puts (live : List (CStr × Value)) : List LogRecord :=
  live.map fun e => .put e.1 e.2

theorem loadEntries_encode (live : List (CStr × Value))
    (hfits : ∀ e ∈ live, Fits e.1 e.2) (entries : Table CStr Value n) (rest : List UInt8) :
    loadEntries live.length
        ((live.flatMap fun e => encodeKey e.1 ++ encodeValue e.2) ++ rest) entries =
      some (applyOps CStr.slot entries (puts live)) := by
  induction live generalizing entries with
  | nil => rfl
  | cons e live ih =>
      obtain ⟨hkey, hval⟩ := hfits e List.mem_cons_self
      have htail := ih fun e' he' => hfits e' (List.mem_cons_of_mem _ he')
      rw [List.length_cons, List.flatMap_cons, List.append_assoc, List.append_assoc, loadEntries,
        readLE_encodeKey hkey]
      dsimp only
      rw [readKey_append hkey]
      dsimp only
      rw [readValue_append hval]
      dsimp only
      rw [htail]
      rfl

theorem loadSnapshot_encode (live : List (CStr × Value)) (hlen : live.length < 2 ^ 31)
    (hfits : ∀ e ∈ live, Fits e.1 e.2) (entries : Table CStr Value n) :
    loadSnapshot (some (encodeSnap live)) entries =
      some (applyOps CStr.slot entries (puts live)) := by
  have hload := loadEntries_encode live hfits entries []
  rw [List.append_nil] at hload
  unfold loadSnapshot encodeSnap
  dsimp only
  rw [readLE_append (by omega)]
  dsimp only
  rw [if_pos hlen, hload]

theorem replayLog_encode (recs : List LogRecord) (hfits : ∀ r ∈ recs, RecordFits r)
    (entries : Table CStr Value n) (fuel : Nat) (hfuel : recs.length ≤ fuel) :
    replayLog fuel (encodeLog recs) entries = some (applyOps CStr.slot entries recs) := by
  induction recs generalizing entries fuel with
  | nil => cases fuel <;> rfl
  | cons record recs ih =>
      obtain ⟨fuel, rfl⟩ : ∃ m, fuel = m + 1 := ⟨fuel - 1, by simp at hfuel; omega⟩
      have hrec := hfits record List.mem_cons_self
      have htail := ih fun r hr => hfits r (List.mem_cons_of_mem _ hr)
      have hfuel' : recs.length ≤ fuel := by simpa using hfuel
      have hsplit : encodeLog (record :: recs) = encodeRecord record ++ encodeLog recs := rfl
      rw [hsplit]
      cases record with
      | put key val =>
          obtain ⟨hkey, hval⟩ := hrec
          unfold encodeRecord
          rw [List.cons_append, List.append_assoc, replayLog, readLE_encodeKey hkey]
          dsimp only
          rw [readKey_append hkey]
          dsimp only
          rw [if_pos rfl, readValue_append hval]
          dsimp only
          rw [htail _ _ hfuel']
          rfl
      | del key =>
          have hkey : key.length < 2 ^ 31 := hrec
          unfold encodeRecord
          rw [List.cons_append, replayLog, readLE_encodeKey hkey]
          dsimp only
          rw [readKey_append hkey]
          dsimp only
          rw [if_neg (by decide), if_pos rfl, htail _ _ hfuel']
          rfl

/-- Every record takes at least one byte. -/
theorem length_le_encodeLog (recs : List LogRecord) : recs.length ≤ (encodeLog recs).length := by
  induction recs with
  | nil => exact Nat.zero_le _
  | cons record recs ih =>
      have hpos : 0 < (encodeRecord record).length := by
        cases record <;> simp [encodeRecord]
      have hsplit : encodeLog (record :: recs) = encodeRecord record ++ encodeLog recs := rfl
      rw [hsplit, List.length_append, List.length_cons]
      omega

theorem encodeLog_append (recs recs' : List LogRecord) :
    encodeLog (recs ++ recs') = encodeLog recs ++ encodeLog recs' := by
  exact List.flatMap_append

/-! ## The files a checkpoint and the log leave -/

omit [NeZero n] in
/-- The temporary file ends up holding the whole snapshot. -/
theorem run_tmpOps (store : KVStore n) (disk : Disk) :
    (tmpOps store).foldl FileOp.run disk =
      { disk with snapTmp := some (encodeSnap (toList store.entries)) } := by
  have hentries : ∀ (live : List (CStr × Value)) (disk : Disk) (bs : List UInt8),
      disk.snapTmp = some bs →
      (live.flatMap (fun e =>
        [FileOp.writeTmp (leBytes 4 e.1.length), .writeTmp e.1.val,
          .writeTmp (leBytes 8 e.2.data.length), .writeTmp (leBytes 4 e.2.type.toNat),
          .writeTmp e.2.data])).foldl FileOp.run disk =
        { disk with
          snapTmp := some (bs ++ live.flatMap fun e => encodeKey e.1 ++ encodeValue e.2) } := by
    intro live
    induction live with
    | nil =>
        rintro disk bs hbs
        simp [← hbs]
    | cons e live ih =>
        intro disk bs hbs
        rw [List.flatMap_cons, List.foldl_append, ih _ (bs ++ (encodeKey e.1 ++ encodeValue e.2))]
        · simp [FileOp.run, List.append_assoc]
        · simp [FileOp.run, hbs, encodeKey, encodeValue, List.append_assoc]
  unfold tmpOps
  rw [List.foldl_cons, List.foldl_cons,
    hentries (toList store.entries) _ (leBytes 4 (toList store.entries).length) rfl]
  rfl

omit [NeZero n] in
/-- A checkpoint that runs to its end replaces the snapshot and empties the log. -/
theorem run_snapshotOps (store : KVStore n) (disk : Disk) :
    (snapshotOps store).foldl FileOp.run disk =
      { disk with
        snap := some (encodeSnap (toList store.entries))
        snapTmp := none
        log := some [] } := by
  unfold snapshotOps
  rw [List.foldl_append, run_tmpOps]
  rfl

/-- The files hold a snapshot of `live` (none for no entries) and a log of `recs`. -/
structure DiskHolds (disk : Disk) (live : List (CStr × Value)) (recs : List LogRecord) : Prop where
  snap : disk.snap = some (encodeSnap live) ∨ (disk.snap = none ∧ live = [])
  log : disk.log.getD [] = encodeLog recs
  live_count : live.length < 2 ^ 31
  live_fits : ∀ e ∈ live, Fits e.1 e.2
  recs_fit : ∀ r ∈ recs, RecordFits r

/-- The operations `kv_recover` performs on files with this content. -/
def recoveryOps (live : List (CStr × Value)) (recs : List LogRecord) : List LogRecord :=
  puts live ++ recs

theorem kvRecover_of_diskHolds (store : KVStore n) {live : List (CStr × Value)}
    {recs : List LogRecord} (hdisk : DiskHolds store.disk live recs) :
    kvRecover store =
      some { store with
        entries := applyOps CStr.slot store.entries (recoveryOps live recs) } := by
  have hload : loadSnapshot store.disk.snap store.entries =
      some (applyOps CStr.slot store.entries (puts live)) := by
    rcases hdisk.snap with hsnap | ⟨hsnap, hlive⟩
    · rw [hsnap, loadSnapshot_encode live hdisk.live_count hdisk.live_fits]
    · rw [hsnap, hlive]
      rfl
  unfold kvRecover
  rw [hload]
  dsimp only
  rw [hdisk.log, replayLog_encode recs hdisk.recs_fit _ _ (length_le_encodeLog recs),
    Option.map_some, recoveryOps, applyOps_append]

theorem DiskHolds.appendLog {disk : Disk} {live : List (CStr × Value)} {recs : List LogRecord}
    (hdisk : DiskHolds disk live recs) {record : LogRecord} (hfits : RecordFits record) :
    DiskHolds (disk.appendLog (encodeRecord record)) live (recs ++ [record]) where
  snap := hdisk.snap
  log := by
    have hone : encodeLog [record] = encodeRecord record := by simp [encodeLog]
    rw [encodeLog_append, hone, ← hdisk.log]
    rfl
  live_count := hdisk.live_count
  live_fits := hdisk.live_fits
  recs_fit := by
    intro r hr
    rcases List.mem_append.mp hr with hr | hr
    · exact hdisk.recs_fit r hr
    · rw [List.mem_singleton.mp hr]
      exact hfits

end Storage
end InventixDB
