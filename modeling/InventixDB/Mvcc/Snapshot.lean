import InventixDB.Mvcc.Steps

/-!
# Snapshot — the moment a transaction takes its snapshot

A snapshot lets through every id drawn so far that was not registered as active (`Passed`).  That
is not the same as having committed: a transaction may have aborted, may be prepared, may have
found no slot, or may still be inside `mvcc_begin_transaction`.  The descriptor keeps its
snapshot until the transaction ends.
-/

namespace InventixDB
namespace Mvcc

open Lib

/-! ## What a snapshot lets through -/

def Committed (s : System) (txnId : TxnId) : Prop :=
  ∃ e ∈ s.manager.commitLog, e.1 = txnId

instance (s : System) (txnId : TxnId) : Decidable (Committed s txnId) := by
  unfold Committed
  infer_instance

def RegisteredActive (s : System) (txnId : TxnId) : Prop :=
  ∃ slot ∈ s.manager.activeTxns, ∃ txn ∈ slot, txn.state = .active ∧ txn.txnId = txnId

instance (s : System) (txnId : TxnId) : Decidable (RegisteredActive s txnId) := by
  unfold RegisteredActive
  infer_instance

/-- The id has been drawn, and is not registered as active. -/
def Passed (s : System) (txnId : TxnId) : Prop :=
  txnId < s.manager.nextTxnId ∧ ¬ RegisteredActive s txnId

instance (s : System) (txnId : TxnId) : Decidable (Passed s txnId) := by
  unfold Passed
  infer_instance

theorem registeredActive_iff {s : System} {txnId : TxnId} :
    RegisteredActive s txnId ↔
      ∃ txn, some txn ∈ s.manager.activeTxns ∧ txn.state = .active ∧ txn.txnId = txnId := by
  constructor
  · rintro ⟨slot, hslot, txn, rfl, hactive⟩
    exact ⟨txn, hslot, hactive⟩
  · rintro ⟨txn, hslot, hactive⟩
    exact ⟨some txn, hslot, txn, rfl, hactive⟩

section TakeSnapshot

variable {snap : TransactionSnapshot} {txnId x : TxnId}
  {slots : List (Option TransactionDescriptor)}

/-- `xmin` bounds what the loop has noted from below. -/
def Bounded (snap : TransactionSnapshot) : Prop :=
  snap.xmin ≤ snap.xmax ∧ ∀ y ∈ snap.activeTxns, snap.xmin ≤ y

theorem Bounded.noteActive (hb : Bounded snap) (slot : Option TransactionDescriptor) :
    Bounded (MVCCManager.noteActive txnId snap slot) := by
  obtain ⟨hmax, hactive⟩ := hb
  cases slot with
  | none => exact ⟨hmax, hactive⟩
  | some txn =>
      unfold MVCCManager.noteActive
      dsimp only
      split
      · have hle : (if txn.txnId < snap.xmin then txn.txnId else snap.xmin) ≤ snap.xmin ∧
            (if txn.txnId < snap.xmin then txn.txnId else snap.xmin) ≤ txn.txnId := by
          by_cases hlt : txn.txnId < snap.xmin
          · rw [if_pos hlt]
            exact ⟨Nat.le_of_lt hlt, Nat.le_refl _⟩
          · rw [if_neg hlt]
            exact ⟨Nat.le_refl _, Nat.not_lt.mp hlt⟩
        refine ⟨Nat.le_trans hle.1 hmax, ?_⟩
        intro y hy
        rcases List.mem_append.mp hy with hy | hy
        · exact Nat.le_trans hle.1 (hactive y hy)
        · rw [List.mem_singleton.mp hy]
          exact hle.2
      · exact ⟨hmax, hactive⟩

theorem Bounded.foldl (hb : Bounded snap) :
    Bounded (slots.foldl (MVCCManager.noteActive txnId) snap) := by
  induction slots generalizing snap with
  | nil => exact hb
  | cons slot slots ih => exact ih (hb.noteActive slot)

theorem xmax_foldl :
    (slots.foldl (MVCCManager.noteActive txnId) snap).xmax = snap.xmax := by
  induction slots generalizing snap with
  | nil => rfl
  | cons slot slots ih =>
      rw [List.foldl_cons, ih]
      unfold MVCCManager.noteActive
      cases slot with
      | none => rfl
      | some txn =>
          dsimp only
          split <;> rfl

theorem mem_foldl : x ∈ (slots.foldl (MVCCManager.noteActive txnId) snap).activeTxns ↔
    x ∈ snap.activeTxns ∨
      ∃ txn, some txn ∈ slots ∧ txn.state = .active ∧ txn.txnId ≠ txnId ∧ txn.txnId = x := by
  induction slots generalizing snap with
  | nil => simp
  | cons slot slots ih =>
      rw [List.foldl_cons, ih]
      cases slot with
      | none => simp [MVCCManager.noteActive]
      | some txn =>
          unfold MVCCManager.noteActive
          dsimp only
          split
          case isTrue hnote =>
            simp only [List.mem_append, List.mem_cons, List.not_mem_nil, or_false,
              Option.some.injEq]
            constructor
            · rintro ((hx | rfl) | ⟨t, ht, hrest⟩)
              · exact Or.inl hx
              · exact Or.inr ⟨txn, Or.inl rfl, hnote.1, hnote.2, rfl⟩
              · exact Or.inr ⟨t, Or.inr ht, hrest⟩
            · rintro (hx | ⟨t, rfl | ht, hrest⟩)
              · exact Or.inl (Or.inl hx)
              · exact Or.inl (Or.inr hrest.2.2.symm)
              · exact Or.inr ⟨t, ht, hrest⟩
          case isFalse hskip =>
            simp only [List.mem_cons, Option.some.injEq]
            constructor
            · rintro (hx | ⟨t, ht, hrest⟩)
              · exact Or.inl hx
              · exact Or.inr ⟨t, Or.inr ht, hrest⟩
            · rintro (hx | ⟨t, rfl | ht, hrest⟩)
              · exact Or.inl hx
              · exact absurd ⟨hrest.1, hrest.2.1⟩ hskip
              · exact Or.inr ⟨t, ht, hrest⟩

end TakeSnapshot

/-- A snapshot taken by an unregistered transaction lets the passed ids through. -/
theorem isVisible_takeSnapshot {s : System} {txnId : TxnId}
    (hself : ∀ txn, some txn ∈ s.manager.activeTxns → txn.txnId ≠ txnId) (x : TxnId) :
    isVisible x (some (s.manager.takeSnapshot txnId)) = true ↔ Passed s x := by
  have hbounded : Bounded (s.manager.takeSnapshot txnId) :=
    Bounded.foldl ⟨Nat.le_refl _, by simp⟩
  have hmax : (s.manager.takeSnapshot txnId).xmax = s.manager.nextTxnId := xmax_foldl
  have hactive : x ∈ (s.manager.takeSnapshot txnId).activeTxns ↔ RegisteredActive s x := by
    unfold MVCCManager.takeSnapshot
    rw [mem_foldl, registeredActive_iff]
    constructor
    · rintro (hx | ⟨txn, hmem, hstate, _, hid⟩)
      · cases hx
      · exact ⟨txn, hmem, hstate, hid⟩
    · rintro ⟨txn, hmem, hstate, hid⟩
      exact Or.inr ⟨txn, hmem, hstate, hself txn hmem, hid⟩
  obtain ⟨hle, hbelow⟩ := hbounded
  rw [hmax] at hle
  unfold isVisible Passed
  dsimp only
  rw [hmax, ← hactive]
  by_cases hmin : x < (s.manager.takeSnapshot txnId).xmin
  · rw [if_pos hmin]
    refine iff_of_true rfl ⟨Nat.lt_of_lt_of_le hmin hle, ?_⟩
    intro hx
    exact Nat.not_lt.mpr (hbelow x hx) hmin
  · rw [if_neg hmin]
    by_cases hnext : x < s.manager.nextTxnId
    · rw [if_neg (Nat.not_le.mpr hnext)]
      simp [hnext]
    · rw [if_pos (Nat.not_lt.mp hnext)]
      simp [hnext]

/-! ## Keeping the snapshot -/

/-- The descriptor `txn` took its snapshot in `s₀`, on the way to `s`. -/
structure SnapshotAt (s₀ s : System) (txn : TransactionDescriptor) : Prop where
  stamped : s₀.beginAt .stamped txn.txnId = some txn
  steps : ∃ s₁, s₀.step (.snapshot txn.txnId) = some s₁ ∧ Steps s₁ s

theorem snapshotAt_of_run {s₀ s : System} {txn : TransactionDescriptor} {actions : List Action}
    (hcall : s₀.beginAt .stamped txn.txnId = some txn)
    (hrun : run s₀ (.snapshot txn.txnId :: actions) = some s) : SnapshotAt s₀ s txn := by
  obtain ⟨s₁, hstep, hrest⟩ := Option.bind_eq_some_iff.mp hrun
  exact ⟨hcall, s₁, hstep, steps_of_run hrest⟩

/-- Wherever the transaction of `txn` is, it is past its snapshot step and has what `txn` has. -/
structure Keeps (txn : TransactionDescriptor) (s : System) : Prop where
  lt : txn.txnId < s.manager.nextTxnId
  begins : ∀ call ∈ s.begins, call.txn.txnId = txn.txnId →
    call.pc = .snapped ∧ call.txn.snapshot = txn.snapshot ∧ call.txn.isolation = txn.isolation
  registered : ∀ txn', some txn' ∈ s.manager.activeTxns → txn'.txnId = txn.txnId →
    txn'.snapshot = txn.snapshot ∧ txn'.isolation = txn.isolation

theorem Keeps.step {txn : TransactionDescriptor} {s s' : System} {a : Action}
    (hk : Keeps txn s) (hw : WellFormed s) (hstep : s.step a = some s') : Keeps txn s' where
  lt := Nat.lt_of_lt_of_le hk.lt (nextTxnId_step hstep)
  begins := by
    intro call hmem hid
    rcases begins_of_step hstep hmem with
      hmem | ⟨_, hnew⟩ | ⟨_, t, hmem, ht⟩ | ⟨t, _, hcall, rfl⟩
    · exact hk.begins call hmem hid
    · exact absurd (hid.symm.trans hnew) (Nat.ne_of_lt hk.lt)
    · have hpc := (hk.begins _ hmem (ht.trans hid)).1
      cases hpc
    · rw [txnId_beginSnapshot] at hid
      have hpc := (hk.begins _ (mem_of_beginAt hcall).1 hid).1
      cases hpc
  registered := by
    intro txn' hmem hid
    rcases registered_of_step hw hstep hmem with ⟨t, ht, rfl | rfl⟩ | hcall
    · exact hk.registered _ ht hid
    · exact hk.registered t ht hid
    · exact (hk.begins _ hcall hid).2

theorem Keeps.steps {txn : TransactionDescriptor} {s s' : System} (hk : Keeps txn s)
    (hw : WellFormed s) (hsteps : Steps s s') : Keeps txn s' := by
  induction hsteps with
  | refl => exact hk
  | tail hsteps hstep ih =>
      obtain ⟨a, hstep⟩ := hstep
      exact ih.step (wellFormed_of_steps hw hsteps) hstep

/-- After its snapshot step a transaction has what the step gave it. -/
theorem SnapshotAt.keeps {s₀ s : System} {txn : TransactionDescriptor} (hw : WellFormed s₀)
    (hat : SnapshotAt s₀ s txn) : Keeps (s₀.manager.beginSnapshot txn) s := by
  obtain ⟨hcall, s₁, hstep, hsteps⟩ := hat
  refine Keeps.steps ?_ (hw.step hstep) hsteps
  obtain ⟨hmem, _⟩ := mem_of_beginAt hcall
  obtain ⟨txn', hcall', rfl⟩ := Option.map_eq_some_iff.mp hstep
  rw [hcall, Option.some_inj] at hcall'
  subst hcall'
  refine ⟨?_, ?_, ?_⟩
  · rw [txnId_beginSnapshot]
    exact (hw.begins _ hmem).lt
  · intro call hin hid
    rw [txnId_beginSnapshot] at hid
    rcases List.mem_cons.mp hin with rfl | hin
    · exact ⟨rfl, rfl, rfl⟩
    · have hne : call.txn.txnId ≠ txn.txnId := by simpa using List.of_mem_filter hin
      exact absurd hid hne
  · intro txn' hin hid
    rw [txnId_beginSnapshot] at hid
    exact absurd hid (hw.apart _ hmem txn' hin)

/-- Every transaction past its snapshot step has taken that step. -/
theorem snapshotAt_of_reachable {s : System} (hreach : Reachable s) :
    (∀ call ∈ s.begins, call.pc = .snapped →
        ∃ s₀ txn, Reachable s₀ ∧ SnapshotAt s₀ s txn ∧ txn.txnId = call.txn.txnId) ∧
      ∀ reader, some reader ∈ s.manager.activeTxns →
        ∃ s₀ txn, Reachable s₀ ∧ SnapshotAt s₀ s txn ∧ txn.txnId = reader.txnId := by
  induction hreach with
  | refl =>
      refine ⟨by simp [System.init], ?_⟩
      intro reader hmem
      cases List.eq_of_mem_replicate hmem
  | @tail s s' hreach hstep ih =>
      obtain ⟨a, hstep⟩ := hstep
      obtain ⟨hbegins, hregistered⟩ := ih
      have hlater : ∀ {txnId}, (∃ s₀ txn, Reachable s₀ ∧ SnapshotAt s₀ s txn ∧ txn.txnId = txnId) →
          ∃ s₀ txn, Reachable s₀ ∧ SnapshotAt s₀ s' txn ∧ txn.txnId = txnId := by
        rintro txnId ⟨s₀, txn, hreach₀, ⟨hcall, s₁, hfirst, hsteps⟩, hid⟩
        exact ⟨s₀, txn, hreach₀, ⟨hcall, s₁, hfirst, hsteps.tail ⟨a, hstep⟩⟩, hid⟩
      constructor
      · intro call hmem hpc
        rcases begins_of_step hstep hmem with
          hmem | ⟨halloc, _⟩ | ⟨hstamped, _⟩ | ⟨t, rfl, hcall, rfl⟩
        · exact hlater (hbegins call hmem hpc)
        · rw [halloc] at hpc
          cases hpc
        · rw [hstamped] at hpc
          cases hpc
        · exact ⟨s, t, hreach, ⟨hcall, s', hstep, Relation.ReflTransGen.refl⟩,
            (txnId_beginSnapshot _ _).symm⟩
      · intro reader hmem
        rcases registered_of_step (wellFormed_of_reachable hreach) hstep hmem with
          ⟨t, ht, rfl | rfl⟩ | hcall
        · exact hlater (hregistered _ ht)
        · exact hlater (hregistered t ht)
        · exact hlater (hbegins _ hcall rfl)

end Mvcc
end InventixDB
