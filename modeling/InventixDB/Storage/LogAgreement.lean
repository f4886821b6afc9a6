import InventixDB.Storage.Checkpoint

/-!
# LogAgreement — the log beside the table when operations fail

A checkpoint closes the log before it opens its temporary file, and a put is logged whether or not
the table took it.  So the log has every change exactly as long as it is open when one is made,
and it has only changes as long as no put meets a full table while it is.
-/

namespace InventixDB
namespace Storage

open Lib.OpenAddressing

/-! ## Calls and the files they find -/

variable {n : Nat} [NeZero n]

/-- A call, and whether the temporary snapshot file opens during it. -/
structure DiskCall where
  opens : Bool
  call : KVCall
  deriving DecidableEq

/-- The store with the disk as the call finds it. -/
def DiskCall.before (store : KVStore n) (step : DiskCall) : KVStore n :=
  { store with disk := { store.disk with tmpOpens := step.opens } }

def DiskCall.exec (store : KVStore n) (step : DiskCall) : KVStore n :=
  step.call.exec (step.before store)

/-- The store when `kv_append_log` has written and has not yet looked at the threshold. -/
def afterWrite (store : KVStore n) (record : LogRecord) : KVStore n :=
  if store.logFp then appended store record else store

def KVCall.written (store : KVStore n) : KVCall → KVStore n
  | .put key val =>
      afterWrite
        (kvPutInternal { store with btreeTable := btreePut store.btreeTable key val } key val)
        (.put key val)
  | .delete key =>
      match probe CStr.slot store.entries key with
      | .hit i =>
          afterWrite { store with entries := Function.update store.entries i none } (.del key)
      | _ => store
  | .get _ => store
  | .snapshot => store

/-- The bytes of the log file. -/
def logBytes (store : KVStore n) : List UInt8 :=
  store.disk.log.getD []

/-! ## Agreement -/

/-- A change that `kv_get` sees is in the log, and a put that the table dropped is not. -/
structure StepAgrees (store : KVStore n) (call : KVCall) : Prop where
  recorded : (∃ key, kvGet (call.exec store) key ≠ kvGet store key) →
    ∃ record, call.op? = some record ∧
      logBytes (call.written store) = logBytes store ++ encodeRecord record
  stored : ∀ key val, call = .put key val → kvGet (call.exec store) key ≠ some val →
    logBytes (call.written store) = logBytes store

/-- Log and table agree in every step of a run. -/
def LogAgrees : KVStore n → List DiskCall → Prop
  | _, [] => True
  | store, step :: steps =>
      StepAgrees (step.before store) step.call ∧ LogAgrees (step.exec store) steps

/-- The log is open for a put of another value and for a delete that finds its key, and closed
for a put that finds the table full. -/
def KVCall.LogFits (store : KVStore n) : KVCall → Prop
  | .put key val =>
      if probe CStr.slot store.entries key = .full then store.logFp = false
      else kvGet store key = some val ∨ store.logFp = true
  | .delete key => kvGet store key = none ∨ store.logFp = true
  | .get _ => True
  | .snapshot => True

instance instDecidableLogFits (store : KVStore n) : (call : KVCall) → Decidable (call.LogFits store)
  | .put key val =>
      inferInstanceAs (Decidable (if probe CStr.slot store.entries key = .full then
        store.logFp = false else kvGet store key = some val ∨ store.logFp = true))
  | .delete _ => inferInstanceAs (Decidable (_ ∨ _))
  | .get _ => isTrue trivial
  | .snapshot => isTrue trivial

def LogCallsFit : KVStore n → List DiskCall → Prop
  | _, [] => True
  | store, step :: steps => step.call.LogFits store ∧ LogCallsFit (step.exec store) steps

instance instDecidableLogCallsFit :
    (store : KVStore n) → (steps : List DiskCall) → Decidable (LogCallsFit store steps)
  | _, [] => isTrue trivial
  | store, step :: steps =>
      haveI := instDecidableLogCallsFit (step.exec store) steps
      inferInstanceAs (Decidable (_ ∧ _))

/-! ## When the log is open -/

section Open

variable {store : KVStore n} {record : LogRecord} {key : CStr} {val : Value}

/-! ## One call -/

theorem encodeRecord_ne_nil (record : LogRecord) : encodeRecord record ≠ [] := by
  cases record <;> exact List.cons_ne_nil _ _

omit [NeZero n] in
theorem logBytes_afterWrite (store : KVStore n) (record : LogRecord) :
    logBytes (afterWrite store record) =
      if store.logFp then logBytes store ++ encodeRecord record else logBytes store := by
  rw [afterWrite]
  by_cases hopen : store.logFp = true
  · rw [if_pos hopen, if_pos hopen]
    rfl
  · rw [if_neg hopen, if_neg hopen]

omit [NeZero n] in
/-- Only an open log has got anything. -/
theorem logFp_of_logBytes {bs : List UInt8} {record' : LogRecord} (hbs : logBytes store = bs)
    (heq : logBytes (afterWrite store record) = bs ++ encodeRecord record') :
    store.logFp = true := by
  by_contra hopen
  rw [logBytes_afterWrite, if_neg hopen, hbs] at heq
  exact encodeRecord_ne_nil record' (List.append_right_eq_self.mp heq.symm)

/-- A put is seen exactly if it finds room and brings another value. -/
theorem kvGet_put_changes (hroom : probe CStr.slot store.entries key ≠ .full) :
    (∃ k, kvGet (kvPut store key val) k ≠ kvGet store k) ↔ kvGet store key ≠ some val := by
  have hget : ∀ k, kvGet (kvPut store key val) k =
      lookup CStr.slot (insert CStr.slot store.entries key val) k := by
    intro k
    rw [kvGet, entries_kvPut]
  constructor
  · rintro ⟨k, hk⟩ hsame
    rw [hget, insert_lookup_self hsame] at hk
    exact hk rfl
  · intro hne
    refine ⟨key, ?_⟩
    rw [hget, lookup_insert_self hroom]
    exact hne.symm

theorem kvGet_put_full (hfull : probe CStr.slot store.entries key = .full) (k : CStr) :
    kvGet (kvPut store key val) k = kvGet store k := by
  rw [kvGet, entries_kvPut, insert_of_full hfull, kvGet]

theorem kvGet_delete_changes :
    (∃ k, kvGet (kvDelete store key) k ≠ kvGet store k) ↔ kvGet store key ≠ none := by
  have hget : ∀ k, kvGet (kvDelete store key) k =
      lookup CStr.slot (erase CStr.slot store.entries key) k := by
    intro k
    rw [kvGet, entries_kvDelete]
  constructor
  · rintro ⟨k, hk⟩ hnone
    rw [hget, erase_of_lookup_none hnone] at hk
    exact hk rfl
  · intro hne
    refine ⟨key, ?_⟩
    rw [hget, lookup_erase_self]
    exact hne.symm

theorem stepAgrees_put_iff :
    StepAgrees store (.put key val) ↔ (KVCall.put key val).LogFits store := by
  have hwritten : logBytes ((KVCall.put key val).written store) =
      if store.logFp then logBytes store ++ encodeRecord (.put key val) else logBytes store :=
    logBytes_afterWrite _ _
  rw [KVCall.LogFits]
  by_cases hfull : probe CStr.slot store.entries key = .full
  · have hnone : kvGet store key ≠ some val := by
      rw [kvGet, lookup, hfull]
      intro h
      cases h
    rw [if_pos hfull]
    constructor
    · intro hs
      by_contra hopen
      have hopen' : store.logFp = true := Bool.eq_true_of_not_eq_false hopen
      have hsame := hs.stored key val rfl (by
        rw [KVCall.exec, kvGet_put_full hfull]
        exact hnone)
      rw [hwritten, if_pos hopen'] at hsame
      exact encodeRecord_ne_nil _ (List.append_right_eq_self.mp hsame)
    · intro hclosed
      refine ⟨?_, fun _ _ _ _ => ?_⟩
      · rintro ⟨k, hk⟩
        exact absurd (kvGet_put_full hfull k) hk
      · rw [hwritten, if_neg (by rw [hclosed]; exact Bool.false_ne_true)]
  · rw [if_neg hfull]
    constructor
    · intro hs
      by_cases hsame : kvGet store key = some val
      · exact Or.inl hsame
      · obtain ⟨record, -, hlog⟩ := hs.recorded ((kvGet_put_changes hfull).mpr hsame)
        have hput : logBytes (afterWrite (kvPutInternal
            { store with btreeTable := btreePut store.btreeTable key val } key val)
              (.put key val)) = logBytes store ++ encodeRecord record := hlog
        have hopen := logFp_of_logBytes rfl hput
        exact Or.inr hopen
    · intro hfits
      refine ⟨fun hchange => ⟨.put key val, rfl, ?_⟩, ?_⟩
      · have hopen := hfits.resolve_left ((kvGet_put_changes hfull).mp hchange)
        rw [hwritten, if_pos hopen]
      · rintro key' val' ⟨⟩ hlost
        refine absurd ?_ hlost
        rw [KVCall.exec, kvGet, entries_kvPut, lookup_insert_self hfull]

theorem stepAgrees_delete_iff :
    StepAgrees store (.delete key) ↔ (KVCall.delete key).LogFits store := by
  rw [KVCall.LogFits]
  by_cases hnone : kvGet store key = none
  · refine ⟨fun _ => Or.inl hnone, fun _ => ⟨fun hchange => ?_, fun _ _ h => nomatch h⟩⟩
    exact absurd hnone (kvGet_delete_changes.mp hchange)
  · obtain ⟨val, hval⟩ := Option.ne_none_iff_exists'.mp hnone
    obtain ⟨i, hp, -⟩ := lookup_eq_some_iff_hit.mp hval
    have hw : (KVCall.delete key).written store =
        afterWrite { store with entries := Function.update store.entries i none } (.del key) := by
      rw [KVCall.written, hp]
    constructor
    · intro hs
      obtain ⟨record, -, hlog⟩ := hs.recorded (kvGet_delete_changes.mpr hnone)
      rw [hw] at hlog
      have hdel : logBytes (afterWrite
          { store with entries := Function.update store.entries i none } (.del key)) =
            logBytes store ++ encodeRecord record := hlog
      have hopen := logFp_of_logBytes rfl hdel
      exact Or.inr hopen
    · intro hfits
      refine ⟨fun _ => ⟨.del key, rfl, ?_⟩, fun _ _ h => nomatch h⟩
      have hopen := hfits.resolve_left hnone
      have hlog := logBytes_afterWrite
        { store with entries := Function.update store.entries i none } (.del key)
      rw [hw, hlog]
      exact if_pos hopen

theorem stepAgrees_iff (store : KVStore n) (call : KVCall) :
    StepAgrees store call ↔ call.LogFits store := by
  cases call with
  | put key val => exact stepAgrees_put_iff
  | delete key => exact stepAgrees_delete_iff
  | get key =>
      refine ⟨fun _ => trivial, fun _ => ⟨?_, fun _ _ h => nomatch h⟩⟩
      rintro ⟨k, hk⟩
      exact absurd rfl hk
  | snapshot =>
      refine ⟨fun _ => trivial, fun _ => ⟨?_, fun _ _ h => nomatch h⟩⟩
      rintro ⟨k, hk⟩
      refine absurd ?_ hk
      rw [KVCall.exec, kvSnapshot, kvGet, entries_kvSnapshotInternal, kvGet]

end Open

/-! ## Runs -/

/-- Log and table agree all along exactly if every change is made while the log is open and no
put meets a full table while it is. -/
theorem logAgrees_iff (store : KVStore n) (steps : List DiskCall) :
    LogAgrees store steps ↔ LogCallsFit store steps := by
  induction steps generalizing store with
  | nil => exact Iff.rfl
  | cons step steps ih =>
      have hbefore : step.call.LogFits (step.before store) ↔ step.call.LogFits store := by
        cases step.call <;> exact Iff.rfl
      exact and_congr ((stepAgrees_iff _ _).trans hbefore) (ih _)

theorem logAgrees_putDelete :
    LogAgrees defaultStore
      [{ opens := true, call := .put (CStr.lit "a") rowA },
        { opens := false, call := .delete (CStr.lit "a") }] :=
  (logAgrees_iff _ _).mpr (by decide +kernel)

/-- After a checkpoint whose temporary file did not open, a put reaches the table alone. -/
theorem put_after_failed_checkpoint :
    ¬ LogAgrees defaultStore
      [{ opens := false, call := .snapshot },
        { opens := true, call := .put (CStr.lit "a") rowA }] := by
  rintro ⟨-, hput, -⟩
  obtain ⟨record, -, hlog⟩ := hput.recorded ⟨CStr.lit "a", by decide⟩
  exact encodeRecord_ne_nil record (List.append_right_eq_self.mp hlog.symm)

end Storage
end InventixDB
