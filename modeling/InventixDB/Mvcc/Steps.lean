import InventixDB.Mvcc.Manager
import Mathlib.Logic.Relation

/-!
# Steps — interleavings of transactions

Any number of transactions may be inside `mvcc_begin_transaction` at once, between two of its
steps; everything else is one step.  `WellFormed` holds in every reachable state: ids are unique,
and a transaction is being begun, registered, committed or gone.
-/

namespace InventixDB
namespace Mvcc

open Lib

/-! ## The system -/

/-- How far a call of `mvcc_begin_transaction` has come. -/
inductive BeginPc
  | allocated
  | stamped
  | snapped
  deriving DecidableEq, Repr

structure BeginCall where
  pc : BeginPc
  txn : TransactionDescriptor
  deriving DecidableEq, Repr

structure System where
  manager : MVCCManager
  begins : List BeginCall
  deriving DecidableEq, Repr

def System.init : System where
  manager := mvccInit
  begins := []

inductive Action
  | allocate (isolation : IsolationLevel)
  | stamp (txnId : TxnId)
  | snapshot (txnId : TxnId)
  | register (txnId : TxnId)
  | prepare (txnId : TxnId)
  | commit (txnId : TxnId)
  | abort (txnId : TxnId)
  | createVersion (txnId : TxnId) (data : List UInt8)
  | markDeleted (version : RowVersion) (txnId : TxnId)
  deriving DecidableEq, Repr

/-- The call of `mvcc_begin_transaction` that goes on from `pc` with this id. -/
def System.beginAt (s : System) (pc : BeginPc) (txnId : TxnId) : Option TransactionDescriptor :=
  (s.begins.find? fun call => call.pc = pc && call.txn.txnId = txnId).map BeginCall.txn

/-- The other calls. -/
def System.otherBegins (s : System) (txnId : TxnId) : List BeginCall :=
  s.begins.filter fun call => call.txn.txnId ≠ txnId

def System.step (s : System) : Action → Option System
  | .allocate isolation =>
      let (txn, manager) := s.manager.beginAllocate isolation
      some { manager := manager, begins := { pc := .allocated, txn := txn } :: s.begins }
  | .stamp txnId =>
      (s.beginAt .allocated txnId).map fun txn =>
        let (txn, manager) := s.manager.beginStamp txn
        { manager := manager, begins := { pc := .stamped, txn := txn } :: s.otherBegins txnId }
  | .snapshot txnId =>
      (s.beginAt .stamped txnId).map fun txn =>
        { s with
          begins :=
            { pc := .snapped, txn := s.manager.beginSnapshot txn } :: s.otherBegins txnId }
  | .register txnId =>
      (s.beginAt .snapped txnId).map fun txn =>
        { manager := s.manager.beginRegister txn, begins := s.otherBegins txnId }
  | .prepare txnId => some { s with manager := (s.manager.prepareTransaction txnId).2 }
  | .commit txnId => some { s with manager := (s.manager.commitTransaction txnId).2 }
  | .abort txnId => some { s with manager := (s.manager.abortTransaction txnId).2 }
  | .createVersion txnId data => some { s with manager := (s.manager.createVersion txnId data).2 }
  | .markDeleted version txnId =>
      some { s with manager := (s.manager.markDeleted version txnId).2 }

/-- Any number of steps. -/
def Steps : System → System → Prop :=
  Relation.ReflTransGen fun s s' => ∃ a, s.step a = some s'

def Reachable : System → Prop :=
  Steps System.init

/-- A given sequence of steps. -/
def run : System → List Action → Option System
  | s, [] => some s
  | s, a :: actions => (s.step a).bind fun s' => run s' actions

theorem steps_of_run {s s' : System} {actions : List Action} (hrun : run s actions = some s') :
    Steps s s' := by
  induction actions generalizing s with
  | nil =>
      cases hrun
      exact Relation.ReflTransGen.refl
  | cons a actions ih =>
      obtain ⟨s₁, hstep, hrest⟩ := Option.bind_eq_some_iff.mp hrun
      exact Relation.ReflTransGen.head ⟨a, hstep⟩ (ih hrest)

/-! ## What the operations change -/

section Operations

variable {m : MVCCManager} {txnId : TxnId} {txn : TransactionDescriptor}

theorem mem_of_getTransaction (hget : m.getTransaction txnId = some txn) :
    some txn ∈ m.activeTxns ∧ txn.txnId = txnId := by
  exact SlotTable.mem_of_find hget

/-- A commit that goes through logs an active transaction and removes it. -/
theorem commitTransaction_cases (m : MVCCManager) (txnId : TxnId) :
    (m.commitTransaction txnId).2 = m ∨
      ∃ txn ts, m.getTransaction txnId = some txn ∧ txn.state = .active ∧
        (m.commitTransaction txnId).2 =
          { m with
            currentTimestamp := m.currentTimestamp + 1
            commitLog := m.commitLog ++ [(txnId, ts)] }.removeTransaction txnId := by
  unfold MVCCManager.commitTransaction MVCCManager.checkWriteConflict
    MVCCManager.checkReadConflict
  cases hget : m.getTransaction txnId with
  | none => exact Or.inl rfl
  | some txn =>
      dsimp only
      by_cases hstate : txn.state = .active
      · rw [if_neg (not_not_intro hstate), if_neg (by simp)]
        exact Or.inr ⟨txn, _, rfl, hstate, rfl⟩
      · rw [if_pos hstate]
        exact Or.inl rfl

theorem abortTransaction_cases (m : MVCCManager) (txnId : TxnId) :
    (m.abortTransaction txnId).2 = m ∨
      (m.abortTransaction txnId).2 = m.removeTransaction txnId := by
  unfold MVCCManager.abortTransaction
  cases m.getTransaction txnId with
  | none => exact Or.inl rfl
  | some txn => exact Or.inr rfl

theorem prepareTransaction_cases (m : MVCCManager) (txnId : TxnId) :
    (m.prepareTransaction txnId).2 = m ∨
      (m.prepareTransaction txnId).2 =
        { m with
          activeTxns := SlotTable.update TransactionDescriptor.txnId txnId
            (fun txn => some { txn with state := .preparing }) m.activeTxns } := by
  unfold MVCCManager.prepareTransaction
  cases m.getTransaction txnId with
  | none => exact Or.inl rfl
  | some txn => exact Or.inr rfl

end Operations

/-- `mvcc_begin_transaction` without anything in between. -/
def beginTransaction (isolation : IsolationLevel) (txnId : TxnId) : List Action :=
  [.allocate isolation, .stamp txnId, .snapshot txnId, .register txnId]

theorem mem_of_beginAt {s : System} {pc : BeginPc} {txnId : TxnId} {txn : TransactionDescriptor}
    (hcall : s.beginAt pc txnId = some txn) :
    { pc := pc, txn := txn } ∈ s.begins ∧ txn.txnId = txnId := by
  obtain ⟨call, hfind, rfl⟩ := Option.map_eq_some_iff.mp hcall
  have hmem := List.mem_of_find?_eq_some hfind
  have hcall := List.find?_some hfind
  simp only [Bool.and_eq_true, decide_eq_true_eq] at hcall
  obtain ⟨rfl, hid⟩ := hcall
  exact ⟨hmem, hid⟩

/-! ## Well-formed states -/

/-- What is true of a transaction that has an id and has not ended. -/
structure Living (m : MVCCManager) (txn : TransactionDescriptor) : Prop where
  pos : 0 < txn.txnId
  lt : txn.txnId < m.nextTxnId
  state : txn.state = .active ∨ txn.state = .preparing
  uncommitted : ∀ ts, (txn.txnId, ts) ∉ m.commitLog

/-- Past its snapshot step a descriptor has a snapshot exactly if its level asks for one. -/
def SnapshotFits (txn : TransactionDescriptor) : Prop :=
  txn.snapshot.isSome = decide (IsolationLevel.repeatableRead.toNat ≤ txn.isolation.toNat)

theorem snapshotFits_beginSnapshot (m : MVCCManager) {txn : TransactionDescriptor}
    (hnone : txn.snapshot = none) : SnapshotFits (m.beginSnapshot txn) := by
  unfold SnapshotFits MVCCManager.beginSnapshot
  by_cases hlevel : IsolationLevel.repeatableRead.toNat ≤ txn.isolation.toNat
  · rw [if_pos hlevel]
    simp [hlevel]
  · rw [if_neg hlevel]
    simp [hlevel, hnone]

@[simp]
theorem txnId_beginSnapshot (m : MVCCManager) (txn : TransactionDescriptor) :
    (m.beginSnapshot txn).txnId = txn.txnId := by
  unfold MVCCManager.beginSnapshot
  split <;> rfl

@[simp]
theorem state_beginSnapshot (m : MVCCManager) (txn : TransactionDescriptor) :
    (m.beginSnapshot txn).state = txn.state := by
  unfold MVCCManager.beginSnapshot
  split <;> rfl

structure WellFormed (s : System) : Prop where
  next_pos : 0 < s.manager.nextTxnId
  registered : ∀ txn, some txn ∈ s.manager.activeTxns → Living s.manager txn
  registered_snapshot : ∀ txn, some txn ∈ s.manager.activeTxns → SnapshotFits txn
  distinct : SlotTable.Distinct TransactionDescriptor.txnId s.manager.activeTxns
  begins : ∀ call ∈ s.begins, Living s.manager call.txn
  begins_snapshot : ∀ call ∈ s.begins, call.pc = .snapped → SnapshotFits call.txn
  begins_none : ∀ call ∈ s.begins, call.pc ≠ .snapped → call.txn.snapshot = none
  begins_nodup : (s.begins.map fun call => call.txn.txnId).Nodup
  apart : ∀ call ∈ s.begins, ∀ txn, some txn ∈ s.manager.activeTxns →
    txn.txnId ≠ call.txn.txnId
  committed_lt : ∀ e ∈ s.manager.commitLog, e.1 < s.manager.nextTxnId

theorem wellFormed_init : WellFormed System.init := by
  have hfree : ∀ txn, some txn ∉ mvccInit.activeTxns := by
    intro txn hmem
    have heq := List.eq_of_mem_replicate hmem
    cases heq
  refine
    { next_pos := Nat.one_pos
      registered := fun txn hmem => absurd hmem (hfree txn)
      registered_snapshot := fun txn hmem => absurd hmem (hfree txn)
      distinct := ?_
      begins := by simp [System.init]
      begins_snapshot := by simp [System.init]
      begins_none := by simp [System.init]
      begins_nodup := List.nodup_nil
      apart := by simp [System.init]
      committed_lt := by simp [System.init, mvccInit] }
  refine List.pairwise_replicate.mpr (Or.inr ?_)
  simp

section WellFormed

variable {s : System}

/-- A call that goes on keeps its id. -/
theorem WellFormed.advance (hw : WellFormed s) {pc : BeginPc} (pc' : BeginPc)
    {txn txn' : TransactionDescriptor} (hcall : s.beginAt pc txn.txnId = some txn)
    (hid : txn'.txnId = txn.txnId) (hstate : txn'.state = txn.state)
    (hsnapshot : pc' = .snapped → SnapshotFits txn')
    (hnone : pc' ≠ .snapped → txn'.snapshot = none) (ts : Timestamp) :
    WellFormed
      { manager := { s.manager with currentTimestamp := ts }
        begins := { pc := pc', txn := txn' } :: s.otherBegins txn.txnId } := by
  obtain ⟨hmem, _⟩ := mem_of_beginAt hcall
  have hother : ∀ call ∈ s.otherBegins txn.txnId, call ∈ s.begins ∧ call.txn.txnId ≠ txn.txnId := by
    intro call hin
    simpa [System.otherBegins] using hin
  have hliving : Living s.manager txn' := by
    obtain ⟨hpos, hlt, hst, hun⟩ := hw.begins _ hmem
    refine ⟨?_, ?_, ?_, ?_⟩
    · rwa [hid]
    · rwa [hid]
    · rwa [hstate]
    · rwa [hid]
  refine
    { next_pos := hw.next_pos
      registered := fun txn hin => { hw.registered txn hin with }
      registered_snapshot := hw.registered_snapshot
      distinct := hw.distinct
      begins := ?_
      begins_snapshot := ?_
      begins_none := ?_
      begins_nodup := ?_
      apart := ?_
      committed_lt := hw.committed_lt }
  · intro call hin
    rcases List.mem_cons.mp hin with rfl | hin
    · exact { hliving with }
    · exact { hw.begins call (hother call hin).1 with }
  · intro call hin hpc
    rcases List.mem_cons.mp hin with rfl | hin
    · exact hsnapshot hpc
    · exact hw.begins_snapshot call (hother call hin).1 hpc
  · intro call hin hpc
    rcases List.mem_cons.mp hin with rfl | hin
    · exact hnone hpc
    · exact hw.begins_none call (hother call hin).1 hpc
  · rw [List.map_cons, List.nodup_cons]
    refine ⟨?_, hw.begins_nodup.sublist (List.filter_sublist.map _)⟩
    intro hin
    obtain ⟨call, hin, heq⟩ := List.mem_map.mp hin
    exact (hother call hin).2 (heq.trans hid)
  · intro call hin t ht
    rcases List.mem_cons.mp hin with rfl | hin
    · rw [hid]
      exact hw.apart _ hmem t ht
    · exact hw.apart call (hother call hin).1 t ht

theorem WellFormed.allocate (hw : WellFormed s) (isolation : IsolationLevel) :
    WellFormed
      { manager := (s.manager.beginAllocate isolation).2
        begins :=
          { pc := .allocated, txn := (s.manager.beginAllocate isolation).1 } :: s.begins } := by
  have hmono : ∀ {txn}, Living s.manager txn →
      Living (s.manager.beginAllocate isolation).2 txn := by
    intro txn hliving
    exact { hliving with lt := Nat.lt_succ_of_lt hliving.lt }
  have hfresh : ∀ ts, (s.manager.nextTxnId, ts) ∉ s.manager.commitLog := by
    intro ts hin
    exact Nat.lt_irrefl _ (hw.committed_lt _ hin)
  refine
    { next_pos := Nat.succ_pos _
      registered := fun txn hin => hmono (hw.registered txn hin)
      registered_snapshot := hw.registered_snapshot
      distinct := hw.distinct
      begins := ?_
      begins_snapshot := ?_
      begins_none := ?_
      begins_nodup := ?_
      apart := ?_
      committed_lt := fun e hin => Nat.lt_succ_of_lt (hw.committed_lt e hin) }
  · intro call hin
    rcases List.mem_cons.mp hin with rfl | hin
    · exact ⟨hw.next_pos, Nat.lt_succ_self _, Or.inl rfl, hfresh⟩
    · exact hmono (hw.begins call hin)
  · intro call hin hpc
    rcases List.mem_cons.mp hin with rfl | hin
    · cases hpc
    · exact hw.begins_snapshot call hin hpc
  · intro call hin hpc
    rcases List.mem_cons.mp hin with rfl | hin
    · rfl
    · exact hw.begins_none call hin hpc
  · rw [List.map_cons, List.nodup_cons]
    refine ⟨?_, hw.begins_nodup⟩
    intro hin
    obtain ⟨call, hin, heq⟩ := List.mem_map.mp hin
    exact Nat.ne_of_lt (hw.begins call hin).lt heq
  · intro call hin t ht
    rcases List.mem_cons.mp hin with rfl | hin
    · exact Nat.ne_of_lt (hw.registered t ht).lt
    · exact hw.apart call hin t ht

theorem WellFormed.register (hw : WellFormed s) {txn : TransactionDescriptor}
    (hcall : s.beginAt .snapped txn.txnId = some txn) :
    WellFormed
      { manager := s.manager.beginRegister txn, begins := s.otherBegins txn.txnId } := by
  obtain ⟨hmem, _⟩ := mem_of_beginAt hcall
  have hother : ∀ call ∈ s.otherBegins txn.txnId, call ∈ s.begins ∧ call.txn.txnId ≠ txn.txnId := by
    intro call hin
    simpa [System.otherBegins] using hin
  have hslots : ∀ t, some t ∈ SlotTable.insert txn s.manager.activeTxns →
      some t ∈ s.manager.activeTxns ∨ t = txn := by
    intro t ht
    rcases SlotTable.mem_insert.mp ht with ht | ⟨rfl, _⟩
    · exact Or.inl ht
    · exact Or.inr rfl
  refine
    { next_pos := hw.next_pos
      registered := ?_
      registered_snapshot := ?_
      distinct := hw.distinct.insert fun t ht => hw.apart _ hmem t ht
      begins := fun call hin => { hw.begins call (hother call hin).1 with }
      begins_snapshot := fun call hin hpc => hw.begins_snapshot call (hother call hin).1 hpc
      begins_none := fun call hin hpc => hw.begins_none call (hother call hin).1 hpc
      begins_nodup := hw.begins_nodup.sublist (List.filter_sublist.map _)
      apart := ?_
      committed_lt := hw.committed_lt }
  · intro t ht
    rcases hslots t ht with ht | rfl
    · exact { hw.registered t ht with }
    · exact { hw.begins _ hmem with }
  · intro t ht
    rcases hslots t ht with ht | rfl
    · exact hw.registered_snapshot t ht
    · exact hw.begins_snapshot _ hmem rfl
  · intro call hin t ht
    rcases hslots t ht with ht | rfl
    · exact hw.apart call (hother call hin).1 t ht
    · exact (hother call hin).2.symm

/-- Changing the state of one transaction, or taking it out of the table. -/
theorem WellFormed.update (hw : WellFormed s) (txnId : TxnId)
    {f : TransactionDescriptor → Option TransactionDescriptor}
    (hf : ∀ a, ∀ b ∈ f a, b = { a with state := .preparing }) :
    WellFormed
      { s with
        manager :=
          { s.manager with
            activeTxns :=
              SlotTable.update TransactionDescriptor.txnId txnId f s.manager.activeTxns } } := by
  have hslots : ∀ t,
      some t ∈ SlotTable.update TransactionDescriptor.txnId txnId f s.manager.activeTxns →
        ∃ a, some a ∈ s.manager.activeTxns ∧ (t = a ∨ t = { a with state := .preparing }) := by
    intro t ht
    rcases (SlotTable.mem_update hw.distinct).mp ht with ⟨ht, _⟩ | ⟨a, ha, _, hfa⟩
    · exact ⟨t, ht, Or.inl rfl⟩
    · exact ⟨a, ha, Or.inr (hf a t hfa)⟩
  refine
    { next_pos := hw.next_pos
      registered := ?_
      registered_snapshot := ?_
      distinct := hw.distinct.update fun a b hb => by rw [hf a b hb]
      begins := fun call hin => { hw.begins call hin with }
      begins_snapshot := hw.begins_snapshot
      begins_none := hw.begins_none
      begins_nodup := hw.begins_nodup
      apart := ?_
      committed_lt := hw.committed_lt }
  · intro t ht
    obtain ⟨a, ha, rfl | rfl⟩ := hslots t ht
    · exact { hw.registered t ha with }
    · exact { hw.registered a ha with state := Or.inr rfl }
  · intro t ht
    obtain ⟨a, ha, rfl | rfl⟩ := hslots t ht
    · exact hw.registered_snapshot t ha
    · exact hw.registered_snapshot a ha
  · intro call hin t ht
    obtain ⟨a, ha, rfl | rfl⟩ := hslots t ht
    · exact hw.apart call hin t ha
    · exact hw.apart call hin a ha

theorem WellFormed.remove (hw : WellFormed s) (txnId : TxnId) :
    WellFormed { s with manager := s.manager.removeTransaction txnId } := by
  exact hw.update txnId (by simp)

theorem mem_removeTransaction (hw : WellFormed s) {txnId : TxnId} {txn : TransactionDescriptor} :
    some txn ∈ (s.manager.removeTransaction txnId).activeTxns ↔
      some txn ∈ s.manager.activeTxns ∧ txn.txnId ≠ txnId := by
  unfold MVCCManager.removeTransaction
  rw [SlotTable.mem_update hw.distinct]
  simp

theorem WellFormed.commit (hw : WellFormed s) {txn : TransactionDescriptor} {txnId : TxnId}
    (hget : s.manager.getTransaction txnId = some txn) (ts ts' : Timestamp) :
    WellFormed
      { s with
        manager :=
          { s.manager with
            currentTimestamp := ts'
            commitLog := s.manager.commitLog ++ [(txnId, ts)] }.removeTransaction txnId } := by
  obtain ⟨hmem, rfl⟩ := mem_of_getTransaction hget
  have hremoved := hw.remove txn.txnId
  -- Nobody alive has the id that is logged.
  have hlog : ∀ {t}, Living (s.manager.removeTransaction txn.txnId) t → t.txnId ≠ txn.txnId →
      Living
        ({ s.manager with
            currentTimestamp := ts'
            commitLog := s.manager.commitLog ++ [(txn.txnId, ts)] }.removeTransaction txn.txnId)
        t := by
    intro t ht hne
    refine ⟨ht.pos, ht.lt, ht.state, ?_⟩
    intro ts'' hin
    rcases List.mem_append.mp hin with hin | hin
    · exact ht.uncommitted ts'' hin
    · rw [List.mem_singleton] at hin
      exact hne (congrArg Prod.fst hin)
  refine
    { next_pos := hremoved.next_pos
      registered := ?_
      registered_snapshot := hremoved.registered_snapshot
      distinct := hremoved.distinct
      begins := ?_
      begins_snapshot := hremoved.begins_snapshot
      begins_none := hremoved.begins_none
      begins_nodup := hremoved.begins_nodup
      apart := hremoved.apart
      committed_lt := ?_ }
  · intro t ht
    exact hlog (hremoved.registered t ht) ((mem_removeTransaction hw).mp ht).2
  · intro call hin
    exact hlog (hremoved.begins call hin) (hw.apart call hin txn hmem).symm
  · intro e hin
    rcases List.mem_append.mp hin with hin | hin
    · exact hw.committed_lt e hin
    · rw [List.mem_singleton] at hin
      subst hin
      exact (hw.registered txn hmem).lt

theorem WellFormed.tick (hw : WellFormed s) (ts : Timestamp) :
    WellFormed { s with manager := { s.manager with currentTimestamp := ts } } := by
  exact
    { hw with
      registered := fun t ht => { hw.registered t ht with }
      begins := fun call hin => { hw.begins call hin with } }

/-- Every step keeps the state well formed. -/
theorem WellFormed.step (hw : WellFormed s) {a : Action} {s' : System}
    (hstep : s.step a = some s') : WellFormed s' := by
  cases a with
  | allocate isolation =>
      cases hstep
      exact hw.allocate isolation
  | stamp txnId =>
      obtain ⟨txn, hcall, rfl⟩ := Option.map_eq_some_iff.mp hstep
      obtain ⟨hmem, rfl⟩ := mem_of_beginAt hcall
      have hnone : txn.snapshot = none := hw.begins_none _ hmem (by simp)
      refine hw.advance .stamped hcall ?_ ?_ ?_ ?_ (s.manager.currentTimestamp + 1)
      · rfl
      · rfl
      · intro hpc
        cases hpc
      · exact fun _ => hnone
  | snapshot txnId =>
      obtain ⟨txn, hcall, rfl⟩ := Option.map_eq_some_iff.mp hstep
      obtain ⟨hmem, rfl⟩ := mem_of_beginAt hcall
      have hnone : txn.snapshot = none := hw.begins_none _ hmem (by simp)
      exact hw.advance .snapped hcall (txnId_beginSnapshot _ _) (state_beginSnapshot _ _)
        (fun _ => snapshotFits_beginSnapshot _ hnone) (fun hpc => absurd rfl hpc)
        s.manager.currentTimestamp
  | register txnId =>
      obtain ⟨txn, hcall, rfl⟩ := Option.map_eq_some_iff.mp hstep
      obtain ⟨_, rfl⟩ := mem_of_beginAt hcall
      exact hw.register hcall
  | prepare txnId =>
      cases hstep
      rcases prepareTransaction_cases s.manager txnId with heq | heq
      · rw [heq]
        exact hw
      · rw [heq]
        exact hw.update txnId (by simp)
  | commit txnId =>
      cases hstep
      rcases commitTransaction_cases s.manager txnId with heq | ⟨txn, ts, hget, _, heq⟩
      · rw [heq]
        exact hw
      · rw [heq]
        exact hw.commit hget ts _
  | abort txnId =>
      cases hstep
      rcases abortTransaction_cases s.manager txnId with heq | heq
      · rw [heq]
        exact hw
      · rw [heq]
        exact hw.remove txnId
  | createVersion txnId data =>
      cases hstep
      exact hw.tick _
  | markDeleted version txnId =>
      cases hstep
      exact hw.tick _

theorem wellFormed_of_steps {s' : System} (hw : WellFormed s) (hsteps : Steps s s') :
    WellFormed s' := by
  induction hsteps with
  | refl => exact hw
  | tail _ hstep ih =>
      obtain ⟨a, hstep⟩ := hstep
      exact ih.step hstep

theorem wellFormed_of_reachable (hreach : Reachable s) : WellFormed s := by
  exact wellFormed_of_steps wellFormed_init hreach

end WellFormed

/-! ## What a step can do -/

/-- The registered transactions after a step. -/
theorem registered_of_step {s s' : System} {a : Action} (hw : WellFormed s)
    (hstep : s.step a = some s') {txn : TransactionDescriptor}
    (hmem : some txn ∈ s'.manager.activeTxns) :
    (∃ txn', some txn' ∈ s.manager.activeTxns ∧
        (txn = txn' ∨ txn = { txn' with state := .preparing })) ∨
      { pc := .snapped, txn := txn } ∈ s.begins := by
  have hkept : ∀ {txn}, some txn ∈ s.manager.activeTxns →
      ∃ txn', some txn' ∈ s.manager.activeTxns ∧
        (txn = txn' ∨ txn = { txn' with state := .preparing }) :=
    fun {txn} h => ⟨txn, h, Or.inl rfl⟩
  have hremoved : ∀ {txnId}, some txn ∈ (s.manager.removeTransaction txnId).activeTxns →
      some txn ∈ s.manager.activeTxns :=
    fun h => ((mem_removeTransaction hw).mp h).1
  cases a with
  | allocate isolation =>
      cases hstep
      exact Or.inl (hkept hmem)
  | stamp txnId =>
      obtain ⟨_, _, rfl⟩ := Option.map_eq_some_iff.mp hstep
      exact Or.inl (hkept hmem)
  | snapshot txnId =>
      obtain ⟨_, _, rfl⟩ := Option.map_eq_some_iff.mp hstep
      exact Or.inl (hkept hmem)
  | register txnId =>
      obtain ⟨txn', hcall, rfl⟩ := Option.map_eq_some_iff.mp hstep
      rcases SlotTable.mem_insert.mp hmem with hmem | ⟨rfl, _⟩
      · exact Or.inl (hkept hmem)
      · exact Or.inr (mem_of_beginAt hcall).1
  | prepare txnId =>
      cases hstep
      rcases prepareTransaction_cases s.manager txnId with heq | heq
      · rw [heq] at hmem
        exact Or.inl (hkept hmem)
      · rw [heq] at hmem
        rcases (SlotTable.mem_update hw.distinct).mp hmem with ⟨hmem, _⟩ | ⟨txn', hmem', _, hf⟩
        · exact Or.inl (hkept hmem)
        · exact Or.inl ⟨txn', hmem', Or.inr (Option.some_inj.mp hf).symm⟩
  | commit txnId =>
      cases hstep
      rcases commitTransaction_cases s.manager txnId with heq | ⟨_, _, _, _, heq⟩
      · rw [heq] at hmem
        exact Or.inl (hkept hmem)
      · rw [heq] at hmem
        exact Or.inl (hkept (hremoved hmem))
  | abort txnId =>
      cases hstep
      rcases abortTransaction_cases s.manager txnId with heq | heq
      · rw [heq] at hmem
        exact Or.inl (hkept hmem)
      · rw [heq] at hmem
        exact Or.inl (hkept (hremoved hmem))
  | createVersion txnId data =>
      cases hstep
      exact Or.inl (hkept hmem)
  | markDeleted version txnId =>
      cases hstep
      exact Or.inl (hkept hmem)

/-- The calls of `mvcc_begin_transaction` after a step. -/
theorem begins_of_step {s s' : System} {a : Action} (hstep : s.step a = some s')
    {call : BeginCall} (hmem : call ∈ s'.begins) :
    call ∈ s.begins ∨
      (call.pc = .allocated ∧ call.txn.txnId = s.manager.nextTxnId) ∨
      (call.pc = .stamped ∧
        ∃ txn, { pc := .allocated, txn := txn } ∈ s.begins ∧ txn.txnId = call.txn.txnId) ∨
      ∃ txn, a = .snapshot txn.txnId ∧ s.beginAt .stamped txn.txnId = some txn ∧
        call = { pc := .snapped, txn := s.manager.beginSnapshot txn } := by
  have hother : ∀ {txnId}, call ∈ s.otherBegins txnId → call ∈ s.begins :=
    fun h => List.mem_of_mem_filter h
  cases a with
  | allocate isolation =>
      cases hstep
      rcases List.mem_cons.mp hmem with rfl | hmem
      · exact Or.inr (Or.inl ⟨rfl, rfl⟩)
      · exact Or.inl hmem
  | stamp txnId =>
      obtain ⟨txn, hcall, rfl⟩ := Option.map_eq_some_iff.mp hstep
      rcases List.mem_cons.mp hmem with rfl | hmem
      · exact Or.inr (Or.inr (Or.inl ⟨rfl, txn, (mem_of_beginAt hcall).1, rfl⟩))
      · exact Or.inl (hother hmem)
  | snapshot txnId =>
      obtain ⟨txn, hcall, rfl⟩ := Option.map_eq_some_iff.mp hstep
      rcases List.mem_cons.mp hmem with rfl | hmem
      · obtain ⟨_, rfl⟩ := mem_of_beginAt hcall
        exact Or.inr (Or.inr (Or.inr ⟨txn, rfl, hcall, rfl⟩))
      · exact Or.inl (hother hmem)
  | register txnId =>
      obtain ⟨txn, _, rfl⟩ := Option.map_eq_some_iff.mp hstep
      exact Or.inl (hother hmem)
  | prepare txnId =>
      cases hstep
      exact Or.inl hmem
  | commit txnId =>
      cases hstep
      exact Or.inl hmem
  | abort txnId =>
      cases hstep
      exact Or.inl hmem
  | createVersion txnId data =>
      cases hstep
      exact Or.inl hmem
  | markDeleted version txnId =>
      cases hstep
      exact Or.inl hmem

/-- Ids are only ever drawn. -/
theorem nextTxnId_step {s s' : System} {a : Action} (hstep : s.step a = some s') :
    s.manager.nextTxnId ≤ s'.manager.nextTxnId := by
  cases a with
  | allocate isolation =>
      cases hstep
      exact Nat.le_succ _
  | stamp txnId =>
      obtain ⟨txn, _, rfl⟩ := Option.map_eq_some_iff.mp hstep
      exact Nat.le_refl _
  | snapshot txnId =>
      obtain ⟨txn, _, rfl⟩ := Option.map_eq_some_iff.mp hstep
      exact Nat.le_refl _
  | register txnId =>
      obtain ⟨txn, _, rfl⟩ := Option.map_eq_some_iff.mp hstep
      exact Nat.le_refl _
  | prepare txnId =>
      cases hstep
      rcases prepareTransaction_cases s.manager txnId with heq | heq <;> simp [heq]
  | commit txnId =>
      cases hstep
      rcases commitTransaction_cases s.manager txnId with heq | ⟨_, _, _, _, heq⟩ <;>
        simp [heq, MVCCManager.removeTransaction]
  | abort txnId =>
      cases hstep
      rcases abortTransaction_cases s.manager txnId with heq | heq <;>
        simp [heq, MVCCManager.removeTransaction]
  | createVersion txnId data =>
      cases hstep
      exact Nat.le_refl _
  | markDeleted version txnId =>
      cases hstep
      exact Nat.le_refl _

end Mvcc
end InventixDB
