import InventixDB.Mvcc.Snapshot

/-!
# Two-phase commit — what becomes of a prepared transaction

`mvcc_2pc_commit` is the plain commit, and that one asks for an active transaction.  So a prepared
transaction can only be aborted, and until then it keeps its slot.  `mvcc_2pc_abort` is the plain
abort.
-/

namespace InventixDB
namespace Mvcc

open Lib

/-- `mvcc_2pc_commit` -/
def mvcc2pcCommit (m : MVCCManager) (txnId : TxnId) : Int × MVCCManager :=
  m.commitTransaction txnId

/-! ## The table and the log -/

/-- What a step does to them: nothing, or it registers, prepares, aborts or commits. -/
theorem table_of_step {s s' : System} {a : Action} (hstep : s.step a = some s') :
    (s'.manager.activeTxns = s.manager.activeTxns ∧
        s'.manager.commitLog = s.manager.commitLog) ∨
      (∃ txn, s'.manager.activeTxns = SlotTable.insert txn s.manager.activeTxns ∧
        s'.manager.commitLog = s.manager.commitLog) ∨
      (∃ txnId, s'.manager.activeTxns = SlotTable.update TransactionDescriptor.txnId txnId
          (fun txn => some { txn with state := .preparing }) s.manager.activeTxns ∧
        s'.manager.commitLog = s.manager.commitLog) ∨
      (∃ txnId, a = .abort txnId ∧
        s'.manager.activeTxns = (s.manager.removeTransaction txnId).activeTxns ∧
        s'.manager.commitLog = s.manager.commitLog) ∨
      ∃ txn txnId ts, s.manager.getTransaction txnId = some txn ∧ txn.state = .active ∧
        s'.manager.activeTxns = (s.manager.removeTransaction txnId).activeTxns ∧
        s'.manager.commitLog = s.manager.commitLog ++ [(txnId, ts)] := by
  cases a with
  | stamp txnId | snapshot txnId =>
      obtain ⟨_, _, rfl⟩ := Option.map_eq_some_iff.mp hstep
      exact .inl ⟨rfl, rfl⟩
  | register txnId =>
      obtain ⟨txn, _, rfl⟩ := Option.map_eq_some_iff.mp hstep
      exact .inr (.inl ⟨txn, rfl, rfl⟩)
  | prepare txnId =>
      cases hstep
      rcases prepareTransaction_cases s.manager txnId with heq | heq <;> rw [heq]
      · exact .inl ⟨rfl, rfl⟩
      · exact .inr (.inr (.inl ⟨txnId, rfl, rfl⟩))
  | abort txnId =>
      cases hstep
      rcases abortTransaction_cases s.manager txnId with heq | heq <;> rw [heq]
      · exact .inl ⟨rfl, rfl⟩
      · exact .inr (.inr (.inr (.inl ⟨txnId, rfl, rfl, rfl⟩)))
  | commit txnId =>
      cases hstep
      rcases commitTransaction_cases s.manager txnId with heq | ⟨txn, ts, hget, hactive, heq⟩ <;>
        rw [heq]
      · exact .inl ⟨rfl, rfl⟩
      · exact .inr (.inr (.inr (.inr ⟨txn, txnId, ts, hget, hactive, rfl, rfl⟩)))
  | _ =>
      cases hstep
      exact .inl ⟨rfl, rfl⟩

/-! ## One transaction -/

section Prepared

variable {s s' : System} {a : Action} {txn : TransactionDescriptor} {txnId : TxnId}

/-- The transaction has left without a commit. -/
structure Ended (s : System) (txnId : TxnId) : Prop where
  lt : txnId < s.manager.nextTxnId
  begins : ∀ call ∈ s.begins, call.txn.txnId ≠ txnId
  registered : ∀ t, some t ∈ s.manager.activeTxns → t.txnId ≠ txnId
  uncommitted : ¬ Committed s txnId

theorem Ended.step (he : Ended s txnId) (hw : WellFormed s) (hstep : s.step a = some s') :
    Ended s' txnId where
  lt := Nat.lt_of_lt_of_le he.lt (nextTxnId_step hstep)
  begins := by
    intro call hmem
    rcases begins_of_step hstep hmem with
      hmem | ⟨_, hnew⟩ | ⟨_, t, hmem, ht⟩ | ⟨t, _, hcall, rfl⟩
    · exact he.begins call hmem
    · rw [hnew]
      exact Nat.ne_of_gt he.lt
    · rw [← ht]
      exact he.begins _ hmem
    · rw [txnId_beginSnapshot]
      exact he.begins _ (mem_of_beginAt hcall).1
  registered := by
    intro t hmem
    rcases registered_of_step hw hstep hmem with ⟨u, hu, rfl | rfl⟩ | hcall
    · exact he.registered t hu
    · exact he.registered u hu
    · exact he.begins _ hcall
  uncommitted := by
    rintro ⟨e, hmem, rfl⟩
    rcases table_of_step hstep with ⟨_, hlog⟩ | ⟨_, _, hlog⟩ | ⟨_, _, hlog⟩ | ⟨_, _, _, hlog⟩ |
      ⟨t, id, ts, hget, _, _, hlog⟩ <;> rw [hlog] at hmem
    -- only the last case, a commit, adds to the log
    iterate 4 exact he.uncommitted ⟨e, hmem, rfl⟩
    rcases List.mem_append.mp hmem with hmem | hmem
    · exact he.uncommitted ⟨e, hmem, rfl⟩
    · obtain ⟨ht, hid⟩ := mem_of_getTransaction hget
      rw [List.mem_singleton.mp hmem] at he
      exact he.registered t ht hid

/-- Only an abort takes a prepared transaction out of the table. -/
theorem prepared_step (hw : WellFormed s) (hstep : s.step a = some s')
    (hmem : some txn ∈ s.manager.activeTxns) (hprepared : txn.state = .preparing)
    (hother : a ≠ .abort txn.txnId) : some txn ∈ s'.manager.activeTxns := by
  rcases table_of_step hstep with ⟨htable, _⟩ | ⟨_, htable, _⟩ | ⟨id, htable, _⟩ |
    ⟨id, rfl, htable, _⟩ | ⟨t, id, _, hget, hactive, htable, _⟩ <;> rw [htable]
  · exact hmem
  · exact SlotTable.mem_insert.mpr (.inl hmem)
  · refine (SlotTable.mem_update hw.distinct).mpr ?_
    by_cases hid : txn.txnId = id
    · exact .inr ⟨txn, hmem, hid, by rw [← hprepared]⟩
    · exact .inl ⟨hmem, hid⟩
  · exact (mem_removeTransaction hw).mpr ⟨hmem, fun hid => hother (congrArg _ hid.symm)⟩
  -- a commit finds an active transaction, and this one is prepared
  · refine (mem_removeTransaction hw).mpr ⟨hmem, fun hid => ?_⟩
    have hsame := hw.distinct.find_of_mem hmem
    rw [hid] at hsame
    cases hget.symm.trans hsame
    cases hprepared.symm.trans hactive

/-- Its abort ends it. -/
theorem ended_of_abort (hw : WellFormed s) (hmem : some txn ∈ s.manager.activeTxns)
    (hstep : s.step (.abort txn.txnId) = some s') : Ended s' txn.txnId := by
  have hliving := hw.registered txn hmem
  have hget : s.manager.getTransaction txn.txnId = some txn := hw.distinct.find_of_mem hmem
  rw [System.step, MVCCManager.abortTransaction, hget] at hstep
  cases hstep
  refine ⟨hliving.lt, fun call hcall => (hw.apart call hcall txn hmem).symm, ?_, ?_⟩
  · exact fun t ht => ((mem_removeTransaction hw).mp ht).2
  · rintro ⟨e, he, hid⟩
    exact hliving.uncommitted e.2 (hid ▸ he)

theorem mvcc2pcCommit_of_prepared (hw : WellFormed s) (hmem : some txn ∈ s.manager.activeTxns)
    (hprepared : txn.state = .preparing) : (mvcc2pcCommit s.manager txn.txnId).1 = -1 := by
  have hget : s.manager.getTransaction txn.txnId = some txn := hw.distinct.find_of_mem hmem
  rw [mvcc2pcCommit, MVCCManager.commitTransaction, hget]
  dsimp only
  rw [if_pos (by rw [hprepared]; decide)]

theorem Ended.mvcc2pcCommit (he : Ended s txnId) : (mvcc2pcCommit s.manager txnId).1 = -1 := by
  have hget : s.manager.getTransaction txnId = none :=
    SlotTable.find_eq_none_iff.mpr he.registered
  rw [Mvcc.mvcc2pcCommit, MVCCManager.commitTransaction, hget]

theorem ended_of_run {actions : List Action} (hw : WellFormed s) (he : Ended s txnId)
    (hrun : run s actions = some s') : Ended s' txnId := by
  induction actions generalizing s with
  | nil =>
      cases hrun
      exact he
  | cons a actions ih =>
      obtain ⟨s₁, hstep, hrest⟩ := Option.bind_eq_some_iff.mp hrun
      exact ih (hw.step hstep) (he.step hw hstep) hrest

/-- It is prepared, or an abort has ended it. -/
theorem prepared_or_ended {actions : List Action} (hw : WellFormed s)
    (hmem : some txn ∈ s.manager.activeTxns) (hprepared : txn.state = .preparing)
    (hrun : run s actions = some s') :
    if .abort txn.txnId ∈ actions then Ended s' txn.txnId
    else some txn ∈ s'.manager.activeTxns := by
  induction actions generalizing s with
  | nil =>
      cases hrun
      rwa [if_neg List.not_mem_nil]
  | cons a actions ih =>
      obtain ⟨s₁, hstep, hrest⟩ := Option.bind_eq_some_iff.mp hrun
      by_cases ha : a = .abort txn.txnId
      · subst ha
        rw [if_pos List.mem_cons_self]
        exact ended_of_run (hw.step hstep) (ended_of_abort hw hmem hstep) hrest
      · have hlater := ih (hw.step hstep) (prepared_step hw hstep hmem hprepared ha) hrest
        simpa [Ne.symm ha] using hlater

/-- However the node goes on, a prepared transaction is never committed: `mvcc_2pc_commit` refuses
it, and it stands in its slot until it is aborted. -/
theorem prepared_of_run {actions : List Action} (hreach : Reachable s)
    (hmem : some txn ∈ s.manager.activeTxns) (hprepared : txn.state = .preparing)
    (hrun : run s actions = some s') :
    (some txn ∈ s'.manager.activeTxns ↔ .abort txn.txnId ∉ actions) ∧
      (mvcc2pcCommit s'.manager txn.txnId).1 = -1 ∧ ¬ Committed s' txn.txnId := by
  have hw := wellFormed_of_reachable hreach
  have hw' := wellFormed_of_steps hw (steps_of_run hrun)
  have hcase := prepared_or_ended hw hmem hprepared hrun
  by_cases ha : .abort txn.txnId ∈ actions
  · rw [if_pos ha] at hcase
    exact ⟨iff_of_false (fun h => hcase.registered txn h rfl) (not_not_intro ha),
      hcase.mvcc2pcCommit, hcase.uncommitted⟩
  · rw [if_neg ha] at hcase
    refine ⟨iff_of_true hcase ha, mvcc2pcCommit_of_prepared hw' hcase hprepared, ?_⟩
    rintro ⟨e, he, hid⟩
    exact (hw'.registered txn hcase).uncommitted e.2 (hid ▸ he)

end Prepared

/-- `mvcc_2pc_begin` and `mvcc_2pc_prepare` for the first transaction. -/
def firstPrepared : List Action :=
  beginTransaction .serializable 1 ++ [.prepare 1]

theorem prepared_of_run_first :
    ∃ s s' txn, run System.init firstPrepared = some s ∧ run s [.commit 1, .abort 2] = some s' ∧
      (some txn ∈ s'.manager.activeTxns ↔ .abort txn.txnId ∉ [Action.commit 1, .abort 2]) ∧
        (mvcc2pcCommit s'.manager txn.txnId).1 = -1 ∧ ¬ Committed s' txn.txnId := by
  obtain ⟨s, hrun, hs⟩ := (Option.any_eq_true _ _).mp
    (show (run System.init firstPrepared).any (fun s =>
      (s.manager.getTransaction 1).any (fun txn => txn.state = .preparing) &&
        (run s [.commit 1, .abort 2]).isSome) = true by decide)
  obtain ⟨hget, hrun'⟩ := Bool.and_eq_true_iff.mp hs
  obtain ⟨txn, hget, hprepared⟩ := (Option.any_eq_true _ _).mp hget
  obtain ⟨s', hrun'⟩ := Option.isSome_iff_exists.mp hrun'
  exact ⟨s, s', txn, hrun, hrun', prepared_of_run (steps_of_run hrun)
    (mem_of_getTransaction hget).1 (of_decide_eq_true hprepared) hrun'⟩

/-! ## A table full of prepared transactions -/

section Blocked

variable {s s' : System} {a : Action}

/-- Every slot is taken by a prepared transaction. -/
def AllPrepared (m : MVCCManager) : Prop :=
  ∀ slot ∈ m.activeTxns, ∃ txn, slot = some txn ∧ txn.state = .preparing

theorem AllPrepared.commit (hfull : AllPrepared s.manager) (txnId : TxnId) :
    s.manager.commitTransaction txnId = (-1, s.manager) := by
  unfold MVCCManager.commitTransaction
  cases hget : s.manager.getTransaction txnId with
  | none => rfl
  | some txn =>
      obtain ⟨_, hslot, hprepared⟩ := hfull _ (mem_of_getTransaction hget).1
      cases hslot
      dsimp only
      rw [if_pos (by rw [hprepared]; decide)]

theorem AllPrepared.step (hfull : AllPrepared s.manager) (hkeep : ∀ txnId, a ≠ .abort txnId)
    (hstep : s.step a = some s') :
    s'.manager.activeTxns = s.manager.activeTxns ∧ s'.manager.commitLog = s.manager.commitLog := by
  rcases table_of_step hstep with hsame | ⟨txn, htable, hlog⟩ | ⟨id, htable, hlog⟩ |
    ⟨id, habort, _⟩ | ⟨txn, id, _, hget, hactive, _⟩
  · exact hsame
  -- no slot is free, and to prepare again changes nothing
  · refine ⟨htable.trans (SlotTable.insert_full fun hfree => ?_), hlog⟩
    obtain ⟨_, hslot, _⟩ := hfull _ hfree
    cases hslot
  · refine ⟨htable.trans (SlotTable.update_fixed fun txn hmem => ?_), hlog⟩
    obtain ⟨_, hslot, hprepared⟩ := hfull _ hmem
    cases hslot
    rw [← hprepared]
  · exact absurd habort (hkeep id)
  · obtain ⟨_, hslot, hprepared⟩ := hfull _ (mem_of_getTransaction hget).1
    cases hslot
    cases hprepared.symm.trans hactive

/-- Then nothing is registered and nothing is committed any more, until something is aborted. -/
theorem blocked_of_run {actions : List Action} (hfull : AllPrepared s.manager)
    (hkeep : ∀ txnId, .abort txnId ∉ actions) (hrun : run s actions = some s') :
    s'.manager.activeTxns = s.manager.activeTxns ∧ s'.manager.commitLog = s.manager.commitLog ∧
      ∀ txnId, s'.manager.commitTransaction txnId = (-1, s'.manager) := by
  induction actions generalizing s with
  | nil =>
      cases hrun
      exact ⟨rfl, rfl, hfull.commit⟩
  | cons a actions ih =>
      obtain ⟨s₁, hstep, hrest⟩ := Option.bind_eq_some_iff.mp hrun
      obtain ⟨hsame, hlog⟩ := hfull.step (fun id h => hkeep id (h ▸ List.mem_cons_self)) hstep
      have hfull₁ : AllPrepared s₁.manager := by
        rw [AllPrepared, hsame]
        exact hfull
      obtain ⟨htable, hlog', hcommit⟩ :=
        ih hfull₁ (fun id h => hkeep id (List.mem_cons_of_mem _ h)) hrest
      exact ⟨htable.trans hsame, hlog'.trans hlog, hcommit⟩

end Blocked

/-- 256 prepared transactions. -/
def allPrepared : MVCCManager where
  nextTxnId := 257
  currentTimestamp := 256
  activeTxns := (List.range maxActiveTransactions).map fun i =>
    some { txnId := i + 1, state := .preparing, isolation := .readCommitted, startTs := i + 1,
           snapshot := none }
  commitLog := []

theorem blocked_of_run_full :
    ∃ s', run { manager := allPrepared, begins := [] }
        (beginTransaction .readCommitted 257 ++ [.commit 257, .commit 1]) = some s' ∧
      s'.manager.activeTxns = allPrepared.activeTxns ∧ s'.manager.commitLog = [] ∧
        ∀ txnId, s'.manager.commitTransaction txnId = (-1, s'.manager) := by
  obtain ⟨s', hrun⟩ := Option.isSome_iff_exists.mp
    (show (run { manager := allPrepared, begins := [] }
      (beginTransaction .readCommitted 257 ++ [.commit 257, .commit 1])).isSome = true by decide)
  refine ⟨s', hrun, blocked_of_run ?_ (by simp [beginTransaction]) hrun⟩
  intro slot hslot
  obtain ⟨i, _, rfl⟩ := List.mem_map.mp hslot
  exact ⟨_, rfl, rfl⟩

end Mvcc
end InventixDB
