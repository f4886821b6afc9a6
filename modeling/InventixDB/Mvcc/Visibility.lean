import InventixDB.Mvcc.Snapshot

/-!
# Visibility — what readers see, against what was committed

Visibility goes by snapshots and by the table of registered transactions; the commit log is never
read.  Each result says exactly for which versions or tuples that agrees with the log.
-/

namespace InventixDB
namespace Mvcc

open Lib

/-! ## The reader's snapshot -/

theorem committed_passed {s : System} (hw : WellFormed s) {x : TxnId} (hx : Committed s x) :
    Passed s x := by
  obtain ⟨e, hmem, rfl⟩ := hx
  refine ⟨hw.committed_lt e hmem, ?_⟩
  intro hactive
  obtain ⟨txn, hin, _, hid⟩ := registeredActive_iff.mp hactive
  exact (hw.registered txn hin).uncommitted e.2 (by rwa [hid])

section Reader

variable {s₀ s : System} {txn reader : TransactionDescriptor}

theorem SnapshotAt.wellFormed (hat : SnapshotAt s₀ s txn) (hw : WellFormed s₀) : WellFormed s := by
  obtain ⟨_, s₁, hstep, hsteps⟩ := hat
  exact wellFormed_of_steps (hw.step hstep) hsteps

/-- A registered reader has what its snapshot step gave it. -/
theorem SnapshotAt.reader_eq (hat : SnapshotAt s₀ s txn) (hw : WellFormed s₀)
    (hget : s.manager.getTransaction txn.txnId = some reader) :
    reader.snapshot = (s₀.manager.beginSnapshot txn).snapshot ∧
      reader.isolation = txn.isolation := by
  obtain ⟨hmem, hid⟩ := mem_of_getTransaction hget
  obtain ⟨hsnapshot, hisolation⟩ := (hat.keeps hw).registered reader hmem
    (hid.trans (txnId_beginSnapshot _ _).symm)
  refine ⟨hsnapshot, hisolation.trans ?_⟩
  unfold MVCCManager.beginSnapshot
  split <;> rfl

/-- From REPEATABLE READ on, a reader sees the ids that had passed when it took its snapshot. -/
theorem SnapshotAt.isVisible_iff (hat : SnapshotAt s₀ s txn) (hw : WellFormed s₀)
    (hget : s.manager.getTransaction txn.txnId = some reader)
    (hlevel : IsolationLevel.repeatableRead.toNat ≤ txn.isolation.toNat) (x : TxnId) :
    isVisible x reader.snapshot = true ↔ Passed s₀ x := by
  obtain ⟨hmem, _⟩ := mem_of_beginAt hat.stamped
  rw [(hat.reader_eq hw hget).1, MVCCManager.beginSnapshot, if_pos hlevel]
  exact isVisible_takeSnapshot (fun t ht => hw.apart _ hmem t ht) x

/-- Below REPEATABLE READ there is no snapshot. -/
theorem SnapshotAt.snapshot_none (hat : SnapshotAt s₀ s txn) (hw : WellFormed s₀)
    (hget : s.manager.getTransaction txn.txnId = some reader)
    (hlevel : ¬ IsolationLevel.repeatableRead.toNat ≤ txn.isolation.toNat) :
    reader.snapshot = none := by
  obtain ⟨hmem, _⟩ := mem_of_beginAt hat.stamped
  rw [(hat.reader_eq hw hget).1, MVCCManager.beginSnapshot, if_neg hlevel]
  exact hw.begins_none _ hmem (by simp)

end Reader

/-! ## Versions -/

section Versions

variable {m : MVCCManager} {readerTxn : TxnId} {reader : TransactionDescriptor}
  {version : RowVersion}

/-- A foreign version is seen if its creator is and its deleter, if it has one, is not. -/
theorem versionVisible_iff (hget : m.getTransaction readerTxn = some reader)
    (hother : version.createdBy ≠ readerTxn) :
    m.versionVisible version readerTxn = true ↔
      isVisible version.createdBy reader.snapshot = true ∧
        ¬ (version.deletedBy ≠ 0 ∧ isVisible version.deletedBy reader.snapshot = true) := by
  unfold MVCCManager.versionVisible
  rw [hget]
  dsimp only
  rw [if_neg hother]
  cases isVisible version.createdBy reader.snapshot with
  | false => simp
  | true => by_cases hdeleted : version.deletedBy = 0 <;> simp [hdeleted]

end Versions

/-- What a reader sees of another transaction is committed exactly for these versions: their
creator has committed; or, without a snapshot, they are marked deleted; or, with a snapshot,
their creator had not passed when it was taken, or their deleter had. -/
theorem versionVisible_committed_iff (s : System) (readerTxn : TxnId)
    (reader : TransactionDescriptor) (hreach : Reachable s)
    (hget : s.manager.getTransaction readerTxn = some reader) :
    (∃ s₀ txn, Reachable s₀ ∧ SnapshotAt s₀ s txn ∧ txn.txnId = readerTxn) ∧
      ∀ s₀ txn, Reachable s₀ → SnapshotAt s₀ s txn → txn.txnId = readerTxn →
        ∀ version : RowVersion, version.createdBy ≠ readerTxn →
          ((s.manager.versionVisible version readerTxn = true → Committed s version.createdBy) ↔
            Committed s version.createdBy ∨
              if IsolationLevel.repeatableRead.toNat ≤ reader.isolation.toNat then
                ¬ Passed s₀ version.createdBy ∨
                  (version.deletedBy ≠ 0 ∧ Passed s₀ version.deletedBy)
              else version.deletedBy ≠ 0) := by
  obtain ⟨hmem, hid⟩ := mem_of_getTransaction hget
  constructor
  · obtain ⟨s₀, txn, hreach₀, hat, htxn⟩ := (snapshotAt_of_reachable hreach).2 reader hmem
    exact ⟨s₀, txn, hreach₀, hat, htxn.trans hid⟩
  · rintro s₀ txn hreach₀ hat rfl version hother
    have hw := wellFormed_of_reachable hreach₀
    rw [versionVisible_iff hget hother, (hat.reader_eq hw hget).2]
    by_cases hlevel : IsolationLevel.repeatableRead.toNat ≤ txn.isolation.toNat
    · rw [if_pos hlevel, hat.isVisible_iff hw hget hlevel, hat.isVisible_iff hw hget hlevel]
      tauto
    · rw [if_neg hlevel, hat.snapshot_none hw hget hlevel]
      simp only [isVisible, and_true, true_and]
      tauto

theorem versionVisible_committed_iff_two :
    ∃ s reader, run System.init (beginTransaction .readCommitted 1 ++
        beginTransaction .repeatableRead 2) = some s ∧
      s.manager.getTransaction 2 = some reader ∧
      ∀ s₀ txn, Reachable s₀ → SnapshotAt s₀ s txn → txn.txnId = 2 →
        ∀ version : RowVersion, version.createdBy ≠ 2 →
          ((s.manager.versionVisible version 2 = true → Committed s version.createdBy) ↔
            Committed s version.createdBy ∨
              if IsolationLevel.repeatableRead.toNat ≤ reader.isolation.toNat then
                ¬ Passed s₀ version.createdBy ∨
                  (version.deletedBy ≠ 0 ∧ Passed s₀ version.deletedBy)
              else version.deletedBy ≠ 0) := by
  obtain ⟨s, hrun, hreader⟩ := (Option.any_eq_true _ _).mp
    (show (run System.init (beginTransaction .readCommitted 1 ++
        beginTransaction .repeatableRead 2)).any
      (fun s => (s.manager.getTransaction 2).isSome) = true by decide)
  obtain ⟨reader, hget⟩ := Option.isSome_iff_exists.mp hreader
  exact ⟨s, reader, hrun, hget,
    (versionVisible_committed_iff s 2 reader (steps_of_run hrun) hget).2⟩

/-- A reader at READ COMMITTED sees what a transaction that has not committed creates. -/
theorem versionVisible_uncommitted :
    ∃ s s' reader, Reachable s ∧ s.step (.createVersion 1 [65]) = some s' ∧
      s'.manager.getTransaction 2 = some reader ∧ reader.state = .active ∧
      reader.isolation = .readCommitted ∧
      s'.manager.versionVisible (s.manager.createVersion 1 [65]).1 2 = true ∧
      ¬ Committed s' 1 := by
  obtain ⟨s, hrun, hs⟩ := (Option.any_eq_true _ _).mp
    (show (run System.init (beginTransaction .readCommitted 1 ++
        beginTransaction .readCommitted 2)).any
      (fun s => (s.step (.createVersion 1 [65])).any fun s' =>
        (s'.manager.getTransaction 2).any fun reader =>
          decide (reader.state = .active ∧ reader.isolation = .readCommitted ∧
            s'.manager.versionVisible (s.manager.createVersion 1 [65]).1 2 = true ∧
            ¬ Committed s' 1)) = true by decide)
  obtain ⟨s', hstep, hs'⟩ := (Option.any_eq_true _ _).mp hs
  obtain ⟨reader, hget, hreader⟩ := (Option.any_eq_true _ _).mp hs'
  exact ⟨s, s', reader, steps_of_run hrun, hstep, hget, of_decide_eq_true hreader⟩

/-- The version is there for a snapshot taken in `s₀`, going by the commit log. -/
def LiveAt (s₀ : System) (version : RowVersion) : Prop :=
  Committed s₀ version.createdBy ∧
    ¬ (version.deletedBy ≠ 0 ∧ Committed s₀ version.deletedBy)

instance (s₀ : System) (version : RowVersion) : Decidable (LiveAt s₀ version) := by
  unfold LiveAt
  infer_instance

/-- A snapshot taken in `s₀` lets the id through, although it had not committed. -/
def Slipped (s₀ : System) (txnId : TxnId) : Prop :=
  Passed s₀ txnId ∧ ¬ Committed s₀ txnId

instance (s₀ : System) (txnId : TxnId) : Decidable (Slipped s₀ txnId) := by
  unfold Slipped
  infer_instance

/-- A registered reader at REPEATABLE READ or above sees exactly the versions that were live at
its snapshot, unless the creator slipped through and no deleter passed, or the creator had
committed and the deleter slipped through.  A reader that found no slot sees nothing. -/
theorem repeatableRead_iff (s₀ s : System) (txn : TransactionDescriptor) (version : RowVersion)
    (hreach : Reachable s₀) (hat : SnapshotAt s₀ s txn)
    (hlevel : IsolationLevel.repeatableRead.toNat ≤ txn.isolation.toNat)
    (hother : version.createdBy ≠ txn.txnId) :
    ((s.manager.versionVisible version txn.txnId = true ↔ LiveAt s₀ version) ↔
      if (s.manager.getTransaction txn.txnId).isSome then
        ¬ (Slipped s₀ version.createdBy ∧
            ¬ (version.deletedBy ≠ 0 ∧ Passed s₀ version.deletedBy)) ∧
          ¬ (Committed s₀ version.createdBy ∧ version.deletedBy ≠ 0 ∧
            Slipped s₀ version.deletedBy)
      else ¬ LiveAt s₀ version) := by
  have hw := wellFormed_of_reachable hreach
  cases hget : s.manager.getTransaction txn.txnId with
  | none =>
      have hhidden : s.manager.versionVisible version txn.txnId = false := by
        unfold MVCCManager.versionVisible
        rw [hget]
      rw [hhidden]
      simp
  | some reader =>
      rw [if_pos Option.isSome_some, versionVisible_iff hget hother,
        hat.isVisible_iff hw hget hlevel, hat.isVisible_iff hw hget hlevel]
      have hcreator : Committed s₀ version.createdBy → Passed s₀ version.createdBy :=
        committed_passed hw
      have hdeleter : Committed s₀ version.deletedBy → Passed s₀ version.deletedBy :=
        committed_passed hw
      unfold LiveAt Slipped
      grind

/-- A transaction that begins after a run, and what its state looks like from then on. -/
theorem snapshotAt_of_any {actions : List Action}
    {p : System → System → TransactionDescriptor → Bool}
    (hany : (run System.init actions).any (fun s₀ => (s₀.beginAt .stamped 2).any fun txn =>
        decide (s₀.beginAt .stamped txn.txnId = some txn ∧ txn.isolation = .repeatableRead) &&
          (run s₀ [.snapshot txn.txnId, .register txn.txnId]).any fun s => p s₀ s txn) = true) :
    ∃ s₀ s txn, run System.init actions = some s₀ ∧ SnapshotAt s₀ s txn ∧
      txn.isolation = .repeatableRead ∧ p s₀ s txn = true := by
  obtain ⟨s₀, hrun₀, hs₀⟩ := (Option.any_eq_true _ _).mp hany
  obtain ⟨txn, _, htxn⟩ := (Option.any_eq_true _ _).mp hs₀
  rw [Bool.and_eq_true] at htxn
  obtain ⟨hcall, hlevel⟩ := of_decide_eq_true htxn.1
  obtain ⟨s, hrun, hs⟩ := (Option.any_eq_true _ _).mp htxn.2
  exact ⟨s₀, s, txn, hrun₀, snapshotAt_of_run hcall hrun, hlevel, hs⟩

/-- A reader that begins after a commit. -/
theorem snapshotAt_after_commit :
    ∃ s₀ s txn, run System.init (beginTransaction .readCommitted 1 ++
        [.commit 1, .allocate .repeatableRead, .stamp 2]) = some s₀ ∧
      SnapshotAt s₀ s txn ∧ IsolationLevel.repeatableRead.toNat ≤ txn.isolation.toNat ∧
        (1 : TxnId) ≠ txn.txnId := by
  obtain ⟨s₀, s, txn, hrun₀, hat, hlevel, hother⟩ :=
    @snapshotAt_of_any (beginTransaction .readCommitted 1 ++
      [.commit 1, .allocate .repeatableRead, .stamp 2])
      (fun _ _ txn => decide ((1 : TxnId) ≠ txn.txnId)) (by decide)
  exact ⟨s₀, s, txn, hrun₀, hat, by simp [hlevel], of_decide_eq_true hother⟩

theorem repeatableRead_iff_after_commit :
    ∃ s₀ s txn, run System.init (beginTransaction .readCommitted 1 ++
        [.commit 1, .allocate .repeatableRead, .stamp 2]) = some s₀ ∧
      SnapshotAt s₀ s txn ∧
      ((s.manager.versionVisible
            { createdBy := 1, deletedBy := 0, createTs := 3, deleteTs := 0, data := [65] }
            txn.txnId = true ↔
          LiveAt s₀
            { createdBy := 1, deletedBy := 0, createTs := 3, deleteTs := 0, data := [65] }) ↔
        if (s.manager.getTransaction txn.txnId).isSome then
          ¬ (Slipped s₀ 1 ∧ ¬ ((0 : TxnId) ≠ 0 ∧ Passed s₀ 0)) ∧
            ¬ (Committed s₀ 1 ∧ (0 : TxnId) ≠ 0 ∧ Slipped s₀ 0)
        else
          ¬ LiveAt s₀
            { createdBy := 1, deletedBy := 0, createTs := 3, deleteTs := 0, data := [65] }) := by
  obtain ⟨s₀, s, txn, hrun₀, hat, hlevel, hother⟩ := snapshotAt_after_commit
  exact ⟨s₀, s, txn, hrun₀, hat,
    repeatableRead_iff s₀ s txn _ (steps_of_run hrun₀) hat hlevel hother⟩

/-- A transaction that has its id but is not registered yet slips through the snapshot. -/
theorem versionVisible_unregistered_creator :
    ∃ s₀ s txn, Reachable s₀ ∧ SnapshotAt s₀ s txn ∧ txn.isolation = .repeatableRead ∧
      ∃ s₁ s₂, Steps s s₁ ∧ s₁.step (.createVersion 1 [65]) = some s₂ ∧
        s₂.manager.versionVisible (s₁.manager.createVersion 1 [65]).1 txn.txnId = true ∧
        ¬ LiveAt s₀ (s₁.manager.createVersion 1 [65]).1 := by
  obtain ⟨s₀, s, txn, hrun₀, hat, hlevel, hs⟩ :=
    @snapshotAt_of_any [.allocate .readCommitted, .stamp 1, .allocate .repeatableRead, .stamp 2]
      (fun s₀ s txn => (run s [.snapshot 1, .register 1]).any fun s₁ =>
        (s₁.step (.createVersion 1 [65])).any fun s₂ =>
          decide (s₂.manager.versionVisible (s₁.manager.createVersion 1 [65]).1 txn.txnId = true ∧
            ¬ LiveAt s₀ (s₁.manager.createVersion 1 [65]).1)) (by decide +kernel)
  obtain ⟨s₁, hrun₁, hs₁⟩ := (Option.any_eq_true _ _).mp hs
  obtain ⟨s₂, hstep, hs₂⟩ := (Option.any_eq_true _ _).mp hs₁
  exact ⟨s₀, s, txn, steps_of_run hrun₀, hat, hlevel, s₁, s₂, steps_of_run hrun₁, hstep,
    of_decide_eq_true hs₂⟩

/-! ## Tuples -/

/-- Finished transactions have left the table, so nobody's state is ever read as committed. -/
theorem getState_ne_committed {s : System} (hw : WellFormed s) (x : TxnId) :
    s.manager.getState x ≠ .committed := by
  unfold MVCCManager.getState
  cases hget : s.manager.getTransaction x with
  | none => simp
  | some txn =>
      obtain ⟨hmem, _⟩ := mem_of_getTransaction hget
      rcases (hw.registered txn hmem).state with hstate | hstate <;> simp [hstate]

/-- What a reader with a snapshot sees of a tuple. -/
theorem tupleVisible_iff {s₀ s : System} {txn reader : TransactionDescriptor}
    {tuple : MVCCTupleHeader} (hw : WellFormed s₀) (hat : SnapshotAt s₀ s txn)
    (hlevel : IsolationLevel.repeatableRead.toNat ≤ txn.isolation.toNat)
    (hget : s.manager.getTransaction txn.txnId = some reader) :
    s.manager.tupleVisible tuple txn.txnId = true ↔
      tuple.xmax ≠ txn.txnId ∧ (tuple.xmin = txn.txnId ∨
        (tuple.hintCommitted = true ∧ tuple.hintAborted = false ∧ Passed s₀ tuple.xmin)) := by
  have hws := hat.wellFormed hw
  have hpos : txn.txnId ≠ 0 := by
    obtain ⟨hmem, hid⟩ := mem_of_getTransaction hget
    have hreader := (hws.registered reader hmem).pos
    rw [hid] at hreader
    exact Nat.ne_of_gt hreader
  have hisolation : reader.isolation.toNat > IsolationLevel.readUncommitted.toNat := by
    rw [(hat.reader_eq hw hget).2]
    exact Nat.lt_of_lt_of_le (by decide) hlevel
  have hsnapshot : reader.snapshot.isSome = true := by
    rw [(hat.reader_eq hw hget).1, MVCCManager.beginSnapshot, if_pos hlevel]
    rfl
  have hvisible := hat.isVisible_iff hw hget hlevel tuple.xmin
  -- Nobody is read as committed, so only the reader itself can be a deleter that hides.
  have hhides : s.manager.deleterHides tuple reader txn.txnId = true ↔ tuple.xmax = txn.txnId := by
    unfold MVCCManager.deleterHides
    simp only [getState_ne_committed hws, decide_false, Bool.false_and, Bool.or_false,
      Bool.and_eq_true, decide_eq_true_eq, and_iff_right_iff_imp]
    intro hxmax
    rwa [hxmax]
  have hstate := getState_ne_committed hws tuple.xmin
  unfold MVCCManager.tupleVisible
  rw [hget]
  dsimp only
  by_cases hown : tuple.xmin = txn.txnId
  · rw [if_pos hown]
    simp only [hown, Bool.or_eq_true, decide_eq_true_eq, true_or, and_true]
    refine or_iff_right_of_imp ?_
    intro hzero hself
    exact hpos (hself.symm.trans hzero)
  · rw [if_neg hown]
    cases haborted : tuple.hintAborted with
    | true => simp [hown]
    | false =>
        cases hcommitted : tuple.hintCommitted with
        | false => simp [hown, hstate, hisolation]
        | true =>
            have hnothides : s.manager.deleterHides tuple reader txn.txnId = false ↔
                tuple.xmax ≠ txn.txnId := by
              rw [← Bool.not_eq_true, hhides]
            simp only [hown, hsnapshot, ← hvisible]
            cases isVisible tuple.xmin reader.snapshot <;> simp [hnothides]

/-- A tuple is shown faithfully exactly if, when it should be seen, its creator is marked
committed and the reader has not deleted it, and, when it should be hidden, the reader did not
create it and its creator is not marked committed, or had not passed. -/
theorem tupleVisible_faithful_iff (s₀ s : System) (txn : TransactionDescriptor)
    (tuple : MVCCTupleHeader) (hreach : Reachable s₀) (hat : SnapshotAt s₀ s txn)
    (hlevel : IsolationLevel.repeatableRead.toNat ≤ txn.isolation.toNat) :
    ((Committed s₀ tuple.xmin → ¬ (tuple.xmax ≠ 0 ∧ Committed s₀ tuple.xmax) →
          s.manager.tupleVisible tuple txn.txnId = true) ∧
        (tuple.xmax ≠ 0 ∧ Committed s₀ tuple.xmax →
          s.manager.tupleVisible tuple txn.txnId = false)) ↔
      (Committed s₀ tuple.xmin → ¬ (tuple.xmax ≠ 0 ∧ Committed s₀ tuple.xmax) →
          (s.manager.getTransaction txn.txnId).isSome = true ∧ tuple.hintCommitted = true ∧
            tuple.hintAborted = false ∧ tuple.xmax ≠ txn.txnId) ∧
        (tuple.xmax ≠ 0 ∧ Committed s₀ tuple.xmax →
          (s.manager.getTransaction txn.txnId).isSome = true →
            tuple.xmin ≠ txn.txnId ∧
              ¬ (tuple.hintCommitted = true ∧ tuple.hintAborted = false ∧
                Passed s₀ tuple.xmin)) := by
  have hw := wellFormed_of_reachable hreach
  obtain ⟨hmem, _⟩ := mem_of_beginAt hat.stamped
  -- The reader itself has not committed when it takes its snapshot.
  have hself : ∀ x, Committed s₀ x → x ≠ txn.txnId := by
    rintro x ⟨e, hin, rfl⟩ heq
    exact (hw.begins _ hmem).uncommitted e.2 (by rwa [← heq])
  cases hget : s.manager.getTransaction txn.txnId with
  | none =>
      have hhidden : s.manager.tupleVisible tuple txn.txnId = false := by
        unfold MVCCManager.tupleVisible
        rw [hget]
      simp [hhidden]
  | some reader =>
      have hiff : s.manager.tupleVisible tuple txn.txnId = true ↔ _ :=
        tupleVisible_iff hw hat hlevel hget
      have hpassed : Committed s₀ tuple.xmin → Passed s₀ tuple.xmin := committed_passed hw
      rw [← Bool.not_eq_true, hiff]
      have hcreator := hself tuple.xmin
      have hdeleter := hself tuple.xmax
      simp only [Option.isSome_some]
      constructor
      · rintro ⟨hshown, hhidden⟩
        constructor
        · intro hx hlive
          obtain ⟨hxmax, hor⟩ := hshown hx hlive
          rcases hor with hown | ⟨hc, ha, _⟩
          · exact absurd hown (hcreator hx)
          · exact ⟨trivial, hc, ha, hxmax⟩
        · intro hdead _
          have hnot := hhidden hdead
          have hxmax := hdeleter hdead.2
          exact ⟨fun hown => hnot ⟨hxmax, Or.inl hown⟩, fun hmarked => hnot ⟨hxmax, Or.inr hmarked⟩⟩
      · rintro ⟨hshown, hhidden⟩
        constructor
        · intro hx hlive
          obtain ⟨_, hc, ha, hxmax⟩ := hshown hx hlive
          exact ⟨hxmax, Or.inr ⟨hc, ha, hpassed hx⟩⟩
        · rintro hdead ⟨_, hown | hmarked⟩
          · exact (hhidden hdead trivial).1 hown
          · exact (hhidden hdead trivial).2 hmarked

theorem tupleVisible_faithful_iff_marked :
    ∃ s₀ s txn, run System.init (beginTransaction .readCommitted 1 ++
        [.commit 1, .allocate .repeatableRead, .stamp 2]) = some s₀ ∧
      SnapshotAt s₀ s txn ∧
      ((Committed s₀ 1 → ¬ ((0 : TxnId) ≠ 0 ∧ Committed s₀ 0) →
            s.manager.tupleVisible
              { xmin := 1, xmax := 0, hintCommitted := true, hintAborted := false }
              txn.txnId = true) ∧
          ((0 : TxnId) ≠ 0 ∧ Committed s₀ 0 →
            s.manager.tupleVisible
              { xmin := 1, xmax := 0, hintCommitted := true, hintAborted := false }
              txn.txnId = false) ↔
        (Committed s₀ 1 → ¬ ((0 : TxnId) ≠ 0 ∧ Committed s₀ 0) →
            (s.manager.getTransaction txn.txnId).isSome = true ∧ true = true ∧
              false = false ∧ (0 : TxnId) ≠ txn.txnId) ∧
          ((0 : TxnId) ≠ 0 ∧ Committed s₀ 0 →
            (s.manager.getTransaction txn.txnId).isSome = true →
              (1 : TxnId) ≠ txn.txnId ∧
                ¬ (true = true ∧ false = false ∧ Passed s₀ 1))) := by
  obtain ⟨s₀, s, txn, hrun₀, hat, hlevel, -⟩ := snapshotAt_after_commit
  exact ⟨s₀, s, txn, hrun₀, hat,
    tupleVisible_faithful_iff s₀ s txn
      { xmin := 1, xmax := 0, hintCommitted := true, hintAborted := false }
      (steps_of_run hrun₀) hat hlevel⟩

/-- A tuple whose creator committed is hidden, since its creator has left the table. -/
theorem tupleVisible_hides_committed :
    ∃ s₀ s txn, Reachable s₀ ∧ SnapshotAt s₀ s txn ∧ txn.isolation = .repeatableRead ∧
      (s.manager.getTransaction txn.txnId).isSome = true ∧ Committed s₀ 1 ∧
      s.manager.tupleVisible
        { xmin := 1, xmax := 0, hintCommitted := false, hintAborted := false }
        txn.txnId = false := by
  obtain ⟨s₀, s, txn, hrun₀, hat, hlevel, hs⟩ :=
    @snapshotAt_of_any (beginTransaction .readCommitted 1 ++
      [.commit 1, .allocate .repeatableRead, .stamp 2])
      (fun s₀ s txn => decide ((s.manager.getTransaction txn.txnId).isSome = true ∧
        Committed s₀ 1 ∧ s.manager.tupleVisible
          { xmin := 1, xmax := 0, hintCommitted := false, hintAborted := false }
          txn.txnId = false)) (by decide)
  exact ⟨s₀, s, txn, steps_of_run hrun₀, hat, hlevel, of_decide_eq_true hs⟩

end Mvcc
end InventixDB
