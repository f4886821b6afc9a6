import InventixDB.Mvcc.LockBooks
import InventixDB.Mvcc.LockExclusion

/-!
# LockGrants — what `mvcc_acquire_lock` and `mvcc_has_lock` answer

A holder that asks for a higher mode is checked against its own entry, so that most upgrades wait
for themselves.  `mvcc_has_lock` finds the first entry of the resource and then takes every entry
behind it in the chain for one of the resource, and it compares modes by their numbers.
-/

namespace InventixDB
namespace Mvcc

open Lib
open Storage

/-! ## Calls -/

/-- `mvcc_has_lock`; the resource is compared up to its first entry only. -/
def LockManager.hasLock (l : LockManager) (txnId : TxnId) (resource : CStr) (mode : LockMode) :
    Bool :=
  ((l.entries (lockSlot resource)).dropWhile fun e => e.resourceId ≠ resource).any fun e =>
    e.holder = txnId && mode.toNat ≤ e.mode.toNat

/-- `mvcc_upgrade_lock` is an `acquire` of row granularity. -/
inductive LockCall
  | act (a : LockAction)
  | hasLock (txnId : TxnId) (resource : CStr) (mode : LockMode)
  deriving DecidableEq

def LockSystem.call (s : LockSystem) : LockCall → Option LockSystem
  | .act a => s.step a
  | .hasLock _ _ _ => some s

/-- Another transaction has an entry of the resource that conflicts with the mode. -/
def LockTable.Blocked (table : LockTable) (txnId : TxnId) (resource : CStr) (mode : LockMode) :
    Prop :=
  ∃ e ∈ table.entriesOf resource, e.holder ≠ txnId ∧ locksConflict e.mode mode = true

instance (table : LockTable) (txnId : TxnId) (resource : CStr) (mode : LockMode) :
    Decidable (table.Blocked txnId resource mode) :=
  inferInstanceAs (Decidable (∃ e ∈ _, _))

instance (a b : LockMode) : Decidable (a.Covers b) :=
  decidable_of_iff (∀ m ∈ [LockMode.none, .shared, .exclusive, .update, .shareRowExclusive,
      .accessExclusive], locksConflict a m = false → locksConflict b m = false)
    ⟨fun h m => h m (by cases m <;> decide), fun h m _ => h m⟩

/-- The transaction has been granted the resource in the mode or one at least as exclusive, and
has not released it. -/
def LockSystem.Granted (s : LockSystem) (txnId : TxnId) (resource : CStr) (mode : LockMode) :
    Prop :=
  ∃ g ∈ s.grants, g.txnId = txnId ∧ g.resource = resource ∧ g.mode.Covers mode

instance (s : LockSystem) (txnId : TxnId) (resource : CStr) (mode : LockMode) :
    Decidable (s.Granted txnId resource mode) :=
  inferInstanceAs (Decidable (∃ g ∈ _, _))

/-- A request that no entry of another transaction blocks is granted at once, and a question is
answered by what has been granted. -/
def LockSystem.AnswersRight (s : LockSystem) : LockCall → Prop
  | .act (.acquire txnId resource mode gran addr) =>
      s.locks.entries.entryAt addr = none → ¬ s.locks.entries.Blocked txnId resource mode →
        (s.locks.acquireLock s.system.manager txnId resource mode gran addr).1 = 0
  | .act (.release _ _) => True
  | .act (.mvcc _) => True
  | .hasLock txnId resource mode =>
      s.locks.hasLock txnId resource mode = true ↔ s.Granted txnId resource mode

instance (s : LockSystem) : (call : LockCall) → Decidable (s.AnswersRight call)
  | .act (.acquire _ _ _ _ _) => inferInstanceAs (Decidable (_ = none → ¬ _ → _ = (0 : Int)))
  | .act (.release _ _) => isTrue trivial
  | .act (.mvcc _) => isTrue trivial
  | .hasLock _ _ _ => inferInstanceAs (Decidable (_ = true ↔ LockSystem.Granted _ _ _ _))

/-! ## When they are right -/

/-- The transaction has been granted the resource in a mode of at least that number. -/
def LockSystem.GrantedNumber (s : LockSystem) (txnId : TxnId) (resource : CStr)
    (mode : LockMode) : Prop :=
  ∃ g ∈ s.grants, g.txnId = txnId ∧ g.resource = resource ∧ mode.toNat ≤ g.mode.toNat

instance (s : LockSystem) (txnId : TxnId) (resource : CStr) (mode : LockMode) :
    Decidable (s.GrantedNumber txnId resource mode) :=
  inferInstanceAs (Decidable (∃ g ∈ _, _))

/-- Behind the first entry of the resource the transaction has an entry of another resource, in a
mode of at least that number. -/
def LockTable.Neighbour (table : LockTable) (txnId : TxnId) (resource : CStr)
    (mode : LockMode) : Prop :=
  ∃ e ∈ (table (lockSlot resource)).dropWhile fun e => e.resourceId ≠ resource,
    e.resourceId ≠ resource ∧ e.holder = txnId ∧ mode.toNat ≤ e.mode.toNat

instance (table : LockTable) (txnId : TxnId) (resource : CStr) (mode : LockMode) :
    Decidable (table.Neighbour txnId resource mode) :=
  inferInstanceAs (Decidable (∃ e ∈ _, _))

/-- A free request comes from a registered transaction and does not meet an own entry in the way,
and a question is about a mode whose number says how exclusive it is. -/
def LockSystem.Asks (s : LockSystem) : LockCall → Prop
  | .act (.acquire txnId resource mode _ addr) =>
      s.locks.entries.entryAt addr = none → ¬ s.locks.entries.Blocked txnId resource mode →
        (s.system.manager.getTransaction txnId).isSome ∧
          ∀ first ∈ s.locks.entries.findLockEntry resource, first.holder = txnId →
            locksConflict first.mode mode = true → mode.toNat ≤ first.mode.toNat
  | .act (.release _ _) => True
  | .act (.mvcc _) => True
  | .hasLock txnId resource mode =>
      (s.GrantedNumber txnId resource mode ∨ s.locks.entries.Neighbour txnId resource mode) ↔
        s.Granted txnId resource mode

/-- A lock is given back by a holder with one entry, and what an ending transaction lists is its
own. -/
def LockSystem.Returns (s : LockSystem) : LockCall → Prop
  | .act (.acquire _ _ _ _ _) => True
  | .act (.release txnId resource) =>
      (s.locks.entries.entriesOf resource).countP (fun e => e.holder = txnId) ≤ 1
  | .act (.mvcc a) => ∀ txnId ∈ a.ends s.system.manager, OwnAddrs s.locks txnId
  | .hasLock _ _ _ => True

instance (s : LockSystem) : (call : LockCall) → Decidable (s.Returns call)
  | .act (.acquire _ _ _ _ _) => isTrue trivial
  | .act (.release _ _) => inferInstanceAs (Decidable (_ ≤ 1))
  | .act (.mvcc a) =>
      inferInstanceAs (Decidable (∀ txnId ∈ a.ends s.system.manager, _))
  | .hasLock _ _ _ => isTrue trivial

/-! ## Entries and grants -/

/-- The highest number granted is the highest number entered. -/
structure InStep (s : LockSystem) : Prop where
  placed : s.locks.entries.Placed
  listed : ∀ i, ∀ e ∈ s.locks.entries i, e.addr ∈ s.locks.heldLocks e.holder
  entered : ∀ g ∈ s.grants, ∃ e ∈ s.locks.entries (lockSlot g.resource),
    e.resourceId = g.resource ∧ e.holder = g.txnId ∧ g.mode.toNat ≤ e.mode.toNat
  granted : ∀ i, ∀ e ∈ s.locks.entries i, ∃ g ∈ s.grants,
    g.txnId = e.holder ∧ g.resource = e.resourceId ∧ e.mode.toNat ≤ g.mode.toNat

theorem placed_init : LockSystem.init.locks.entries.Placed :=
  tidy_init.placed

theorem InStep.init : InStep LockSystem.init where
  placed := placed_init
  listed i e he := by cases he
  entered g hg := by cases hg
  granted i e he := by cases he

section Answers

variable {s : LockSystem} {txnId : TxnId} {resource : CStr} {mode : LockMode}

/-- Every entry of a resource lies behind its first one. -/
theorem mem_dropWhile_of_resource {chain : List LockEntry} {e : LockEntry} (he : e ∈ chain)
    (hres : e.resourceId = resource) :
    e ∈ chain.dropWhile fun e => e.resourceId ≠ resource := by
  induction chain with
  | nil => cases he
  | cons first rest ih =>
      by_cases hfirst : first.resourceId = resource
      · rw [List.dropWhile_cons_of_neg (by simpa using hfirst)]
        exact he
      · rw [List.dropWhile_cons_of_pos (by simpa using hfirst)]
        rcases List.mem_cons.mp he with rfl | hrest
        · exact absurd hres hfirst
        · exact ih hrest

/-- What `mvcc_has_lock` answers. -/
theorem InStep.hasLock_iff (h : InStep s) :
    s.locks.hasLock txnId resource mode = true ↔
      s.GrantedNumber txnId resource mode ∨ s.locks.entries.Neighbour txnId resource mode := by
  rw [LockManager.hasLock, List.any_eq_true]
  constructor
  · rintro ⟨e, he, hmine⟩
    rw [Bool.and_eq_true, decide_eq_true_iff, decide_eq_true_iff] at hmine
    obtain ⟨hholder, hmode⟩ := hmine
    by_cases hres : e.resourceId = resource
    · obtain ⟨g, hg, htxn, hgres, hgmode⟩ := h.granted _ e ((List.dropWhile_sublist _).mem he)
      exact Or.inl ⟨g, hg, htxn.trans hholder, hgres.trans hres, hmode.trans hgmode⟩
    · exact Or.inr ⟨e, he, hres, hholder, hmode⟩
  · rintro (⟨g, hg, rfl, rfl, hmode⟩ | ⟨e, he, -, hholder, hmode⟩)
    · obtain ⟨e, he, hres, hholder, hgmode⟩ := h.entered g hg
      refine ⟨e, mem_dropWhile_of_resource he hres, ?_⟩
      rw [Bool.and_eq_true, decide_eq_true_iff, decide_eq_true_iff]
      exact ⟨hholder, hmode.trans hgmode⟩
    · refine ⟨e, he, ?_⟩
      rw [Bool.and_eq_true, decide_eq_true_iff, decide_eq_true_iff]
      exact ⟨hholder, hmode⟩

theorem findLockEntry_mem_entriesOf {table : LockTable} {first : LockEntry}
    (hfirst : table.findLockEntry resource = some first) : first ∈ table.entriesOf resource := by
  obtain ⟨hmem, hres⟩ := mem_of_findLockEntry hfirst
  exact List.mem_filter.mpr ⟨hmem, decide_eq_true hres⟩

/-- When a request that nobody else blocks is granted at once. -/
theorem acquireLock_eq_zero_iff {m : MVCCManager} {l : LockManager} {gran : LockGranularity}
    {addr : Addr} (hfree : ¬ l.entries.Blocked txnId resource mode) :
    (l.acquireLock m txnId resource mode gran addr).1 = 0 ↔
      (m.getTransaction txnId).isSome ∧
        ∀ first ∈ l.entries.findLockEntry resource, first.holder = txnId →
          locksConflict first.mode mode = true → mode.toNat ≤ first.mode.toNat := by
  cases hget : m.getTransaction txnId with
  | none =>
      rw [acquireLock_of_not_registered hget]
      exact ⟨fun h => absurd (show (-1 : Int) = 0 from h) (by decide),
        fun h => absurd h.1 Bool.false_ne_true⟩
  | some txn =>
      cases hfirst : l.entries.findLockEntry resource with
      | none =>
          rw [acquireLock_of_unlocked hget hfirst]
          exact ⟨fun _ => ⟨rfl, fun first hnone => by cases hnone⟩, fun _ => rfl⟩
      | some first =>
          rw [acquireLock_of_locked hget hfirst]
          have hother : first.holder ≠ txnId → locksConflict first.mode mode = false := by
            intro hne
            by_contra hconflict
            exact hfree ⟨first, findLockEntry_mem_entriesOf hfirst, hne,
              Bool.eq_true_of_not_eq_false hconflict⟩
          have honly : (∀ first' ∈ some first, first'.holder = txnId →
              locksConflict first'.mode mode = true → mode.toNat ≤ first'.mode.toNat) ↔
                (first.holder = txnId → locksConflict first.mode mode = true →
                  mode.toNat ≤ first.mode.toNat) :=
            ⟨fun h => h first rfl, fun h first' hfirst' => Option.mem_some.mp hfirst' ▸ h⟩
          rw [honly]
          split_ifs with hown hupgrade hconflict
          · exact ⟨fun _ => ⟨rfl, fun _ _ => hown.2⟩, fun _ => rfl⟩
          · refine ⟨fun _ => ⟨rfl, fun _ hbad => ?_⟩, fun _ => rfl⟩
            rw [hupgrade.2] at hbad
            cases hbad
          · constructor
            · intro h
              cases h
            · rintro ⟨-, hgoal⟩
              have hmine : first.holder = txnId := by
                by_contra hne
                rw [hother hne] at hconflict
                cases hconflict
              exact absurd ⟨hmine, hgoal hmine hconflict⟩ hown
          · exact ⟨fun _ => ⟨rfl, fun _ hbad => absurd hbad hconflict⟩, fun _ => rfl⟩

theorem InStep.rightAnswer_iff (h : InStep s) (call : LockCall) :
    s.AnswersRight call ↔ s.Asks call := by
  cases call with
  | hasLock txnId resource mode =>
      rw [LockSystem.AnswersRight, LockSystem.Asks, h.hasLock_iff]
  | act a =>
      cases a with
      | acquire txnId resource mode gran addr =>
          refine imp_congr_right fun _ => ?_
          exact forall_congr' acquireLock_eq_zero_iff
      | release txnId resource => exact Iff.rfl
      | mvcc a => exact Iff.rfl

end Answers

/-! ## One step -/

section Steps

variable {s after : LockSystem} {txnId : TxnId} {resource : CStr} {mode : LockMode}

theorem LockTable.mem_modify {table : LockTable} {f : List LockEntry → List LockEntry}
    {i : Fin lockTableSize} {e : LockEntry} (he : e ∈ table.modify resource f i) :
    i = lockSlot resource ∧ e ∈ f (table i) ∨ i ≠ lockSlot resource ∧ e ∈ table i := by
  rw [LockTable.modify] at he
  by_cases hi : i = lockSlot resource
  · subst hi
    rw [Function.update_self] at he
    exact Or.inl ⟨rfl, he⟩
  · rw [Function.update_of_ne hi] at he
    exact Or.inr ⟨hi, he⟩

/-- A chain keeps what its change keeps. -/
theorem LockTable.mem_modify_of_mem {table : LockTable} {f : List LockEntry → List LockEntry}
    {i : Fin lockTableSize} {e : LockEntry} (he : e ∈ table i)
    (hkeep : i = lockSlot resource → e ∈ f (table i)) : e ∈ table.modify resource f i := by
  rw [LockTable.modify]
  by_cases hi : i = lockSlot resource
  · have hkept := hkeep hi
    subst hi
    rw [Function.update_self]
    exact hkept
  · rw [Function.update_of_ne hi]
    exact he

theorem mem_of_mem_upgradeFirst {chain : List LockEntry} {first e : LockEntry}
    (hfirst : chain.find? (fun e => e.resourceId = resource) = some first)
    (he : e ∈ upgradeFirst resource mode chain) : e = { first with mode := mode } ∨ e ∈ chain := by
  induction chain with
  | nil => cases hfirst
  | cons head rest ih =>
      rw [upgradeFirst] at he
      by_cases hres : head.resourceId = resource
      · rw [List.find?_cons_of_pos (by simpa using hres)] at hfirst
        rw [if_pos hres] at he
        cases hfirst
        exact (List.mem_cons.mp he).imp_right (List.mem_cons_of_mem _)
      · rw [List.find?_cons_of_neg (by simpa using hres)] at hfirst
        rw [if_neg hres] at he
        rcases List.mem_cons.mp he with rfl | hrest
        · exact Or.inr List.mem_cons_self
        · exact (ih hfirst hrest).imp_right (List.mem_cons_of_mem _)

/-- A grant that an entry of the table covers by its number. -/
theorem InStep.grant (h : InStep s) {e : LockEntry} (he : e ∈ s.locks.entries (lockSlot resource))
    (hres : e.resourceId = resource) (hholder : e.holder = txnId)
    (hmode : mode.toNat ≤ e.mode.toNat) :
    InStep { s with
      grants := { txnId := txnId, resource := resource, mode := mode } :: s.grants } where
  placed := h.placed
  listed := h.listed
  entered g hg := by
    rcases List.mem_cons.mp hg with rfl | hg
    · exact ⟨e, he, hres, hholder, hmode⟩
    · exact h.entered g hg
  granted i e he := by
    obtain ⟨g, hg, hsame⟩ := h.granted i e he
    exact ⟨g, List.mem_cons_of_mem _ hg, hsame⟩

/-- A new entry, and the grant it stands for. -/
theorem InStep.enter (h : InStep s) {f : List LockEntry → List LockEntry} {lock : LockEntry}
    (hf : ∀ chain, (f chain).Perm (lock :: chain))
    (hfree : s.locks.entries.entryAt lock.addr = none) :
    InStep { s with
      locks :=
        { entries := s.locks.entries.modify lock.resourceId f
          heldLocks := Function.update s.locks.heldLocks lock.holder
            (s.locks.heldLocks lock.holder ++ [lock.addr]) }
      grants :=
        { txnId := lock.holder, resource := lock.resourceId, mode := lock.mode } :: s.grants } where
  placed := h.placed.modify_cons hf rfl (LockTable.ne_of_entryAt_eq_none hfree)
  listed i e he := by
    have hlist : e = lock ∨ e ∈ s.locks.entries i := by
      rcases LockTable.mem_modify he with ⟨-, hnew⟩ | ⟨-, hold⟩
      · exact List.mem_cons.mp ((hf _).mem_iff.mp hnew)
      · exact Or.inr hold
    dsimp only
    rcases hlist with rfl | hold
    · rw [Function.update_self]
      exact List.mem_append_right _ (List.mem_singleton.mpr rfl)
    · by_cases hholder : e.holder = lock.holder
      · rw [hholder, Function.update_self, ← hholder]
        exact List.mem_append_left _ (h.listed i e hold)
      · rw [Function.update_of_ne hholder]
        exact h.listed i e hold
  entered g hg := by
    rcases List.mem_cons.mp hg with rfl | hg
    · refine ⟨lock, ?_, rfl, rfl, le_rfl⟩
      dsimp only
      rw [modify_self]
      exact (hf _).mem_iff.mpr List.mem_cons_self
    · obtain ⟨e, he, hsame⟩ := h.entered g hg
      exact ⟨e, LockTable.mem_modify_of_mem he fun _ =>
        (hf _).mem_iff.mpr (List.mem_cons_of_mem _ he), hsame⟩
  granted i e he := by
    have hlist : e = lock ∨ e ∈ s.locks.entries i := by
      rcases LockTable.mem_modify he with ⟨-, hnew⟩ | ⟨-, hold⟩
      · exact List.mem_cons.mp ((hf _).mem_iff.mp hnew)
      · exact Or.inr hold
    rcases hlist with rfl | hold
    · exact ⟨_, List.mem_cons_self, rfl, rfl, le_rfl⟩
    · obtain ⟨g, hg, hsame⟩ := h.granted i e hold
      exact ⟨g, List.mem_cons_of_mem _ hg, hsame⟩

/-- An upgrade in place, and the grant of the new mode. -/
theorem InStep.upgrade (h : InStep s) {first : LockEntry}
    (hfirst : s.locks.entries.findLockEntry resource = some first) (hholder : first.holder = txnId)
    (hmode : first.mode.toNat ≤ mode.toNat) :
    InStep { s with
      locks := { s.locks with
        entries := s.locks.entries.modify resource (upgradeFirst resource mode) }
      grants := { txnId := txnId, resource := resource, mode := mode } :: s.grants } := by
  obtain ⟨hmem, hres⟩ := mem_of_findLockEntry hfirst
  obtain ⟨hnew, hold⟩ := @mem_upgradeFirst resource mode _ first hfirst
  have hlist : ∀ i, ∀ e ∈ s.locks.entries.modify resource (upgradeFirst resource mode) i,
      e = { first with mode := mode } ∧ i = lockSlot resource ∨ e ∈ s.locks.entries i := by
    intro i e he
    rcases LockTable.mem_modify he with ⟨rfl, hchain⟩ | ⟨-, hchain⟩
    · exact (mem_of_mem_upgradeFirst hfirst hchain).imp_left fun heq => ⟨heq, rfl⟩
    · exact Or.inr hchain
  have hupgraded : { first with mode := mode } ∈
      s.locks.entries.modify resource (upgradeFirst resource mode) (lockSlot resource) := by
    rw [modify_self]
    exact hnew
  refine ⟨h.placed.upgrade resource mode, fun i e he => ?_, fun g hg => ?_, fun i e he => ?_⟩
  · rcases hlist i e he with ⟨rfl, -⟩ | hchain
    · exact h.listed _ first hmem
    · exact h.listed i e hchain
  · rcases List.mem_cons.mp hg with rfl | hg
    · exact ⟨_, hupgraded, hres, hholder, le_rfl⟩
    · obtain ⟨e, he, heres, heholder, hnumber⟩ := h.entered g hg
      by_cases hsame : e = first
      · -- The entry that stood for the grant is the one that was upgraded.
        subst hsame
        refine ⟨{ e with mode := mode }, ?_, heres, heholder, hnumber.trans hmode⟩
        have hslot : lockSlot g.resource = lockSlot resource := by rw [← heres, hres]
        rw [hslot]
        exact hupgraded
      · refine ⟨e, LockTable.mem_modify_of_mem he fun hslot => ?_, heres, heholder, hnumber⟩
        rw [hslot] at he ⊢
        exact (hold e he).resolve_left hsame
  · rcases hlist i e he with ⟨rfl, -⟩ | hchain
    · exact ⟨_, List.mem_cons_self, hholder.symm, hres.symm, le_rfl⟩
    · obtain ⟨g, hg, hsame⟩ := h.granted i e hchain
      exact ⟨g, List.mem_cons_of_mem _ hg, hsame⟩

theorem InStep.acquire {gran : LockGranularity} {addr : Addr} (h : InStep s)
    (hstep : s.step (.acquire txnId resource mode gran addr) = some after) : InStep after := by
  rw [LockSystem.step, Option.ite_none_left_eq_some] at hstep
  obtain ⟨haddr, hstep⟩ := hstep
  have hfree : s.locks.entries.entryAt addr = none := Option.not_isSome_iff_eq_none.mp haddr
  cases hget : s.system.manager.getTransaction txnId with
  | none =>
      rw [acquireLock_of_not_registered hget] at hstep
      cases hstep
      exact h
  | some txn =>
      cases hfirst : s.locks.entries.findLockEntry resource with
      | none =>
          rw [acquireLock_of_unlocked hget hfirst] at hstep
          cases hstep
          exact @InStep.enter s h _
            { addr := addr, resourceId := resource, granularity := gran, mode := mode,
              holder := txnId } (fun _ => List.Perm.refl _) hfree
      | some first =>
          obtain ⟨hmem, hres⟩ := mem_of_findLockEntry hfirst
          rw [acquireLock_of_locked hget hfirst] at hstep
          by_cases hown : first.holder = txnId ∧ mode.toNat ≤ first.mode.toNat
          · rw [if_pos hown] at hstep
            cases hstep
            exact h.grant hmem hres hown.1 hown.2
          · rw [if_neg hown] at hstep
            by_cases hup : first.holder = txnId ∧ locksConflict first.mode mode = false
            · rw [if_pos hup] at hstep
              cases hstep
              refine h.upgrade hfirst hup.1 (Nat.le_of_lt (Nat.lt_of_not_le fun hle => ?_))
              exact hown ⟨hup.1, hle⟩
            · rw [if_neg hup] at hstep
              by_cases hconflict : locksConflict first.mode mode = true
              · rw [if_pos hconflict] at hstep
                cases hstep
                exact h
              · rw [if_neg hconflict] at hstep
                cases hstep
                exact @InStep.enter s h _
                  { addr := addr, resourceId := resource, granularity := gran, mode := mode,
                    holder := txnId } (fun _ => List.perm_append_singleton _ _) hfree

/-! ## Giving back -/

theorem not_of_mem_eraseP {α : Type*} {p : α → Bool} {l : List α} (hcount : l.countP p ≤ 1) :
    ∀ e ∈ l.eraseP p, ¬ p e := by
  induction l with
  | nil =>
      intro e he
      cases he
  | cons first rest ih =>
      intro e he
      by_cases hfirst : p first
      · rw [List.eraseP_cons_of_pos hfirst] at he
        rw [List.countP_cons_of_pos hfirst] at hcount
        exact List.countP_eq_zero.mp (by omega) e he
      · rw [List.eraseP_cons_of_neg hfirst] at he
        rw [List.countP_cons_of_neg hfirst] at hcount
        rcases List.mem_cons.mp he with rfl | hrest
        · exact hfirst
        · exact ih hcount e hrest

theorem LockTable.Placed.modify_sublist {table : LockTable} (hp : table.Placed)
    {f : List LockEntry → List LockEntry}
    (hf : List.Sublist (f (table (lockSlot resource))) (table (lockSlot resource))) :
    (table.modify resource f).Placed where
  addrs := by
    have hnew := (table.all_modify resource f).map LockEntry.addr
    have hold := (table.all_perm (lockSlot resource)).map LockEntry.addr
    refine hnew.nodup_iff.mpr ?_
    refine (hold.nodup_iff.mp hp.addrs).sublist ?_
    exact (hf.append_right _).map LockEntry.addr
  slots i e he := by
    rcases LockTable.mem_modify he with ⟨rfl, hnew⟩ | ⟨-, hold⟩
    · exact hp.slots _ e (hf.mem hnew)
    · exact hp.slots i e hold

theorem InStep.release (h : InStep s) (hone : s.Returns (.act (.release txnId resource)))
    (hstep : s.step (.release txnId resource) = some after) : InStep after := by
  cases hstep
  have hcount : (s.locks.entries (lockSlot resource)).countP
      (fun e => e.resourceId = resource && e.holder = txnId) ≤ 1 := by
    have hentries : (s.locks.entries.entriesOf resource).countP (fun e => e.holder = txnId) ≤ 1 :=
      hone
    rw [LockTable.entriesOf, List.countP_filter] at hentries
    refine Nat.le_trans (Nat.le_of_eq (List.countP_congr fun e _ => ?_)) hentries
    rw [Bool.and_comm]
  -- What is left of the chain, and that nothing of the transaction is.
  have htable : (s.locks.releaseLock txnId resource).2 =
      { s.locks with
        entries := s.locks.entries.modify resource fun chain =>
          chain.eraseP fun e => e.resourceId = resource && e.holder = txnId } := by
    unfold LockManager.releaseLock
    split
    · rfl
    next hnone =>
      have hsame : (s.locks.entries (lockSlot resource)).eraseP
          (fun e => e.resourceId = resource && e.holder = txnId) =
            s.locks.entries (lockSlot resource) :=
        List.eraseP_of_forall_not fun e he hmine => hnone (List.any_eq_true.mpr ⟨e, he, hmine⟩)
      rw [LockTable.modify, hsame, Function.update_eq_self]
  have hgone : ∀ i, ∀ e ∈ s.locks.entries.modify resource (fun chain =>
      chain.eraseP fun e => e.resourceId = resource && e.holder = txnId) i,
        e ∈ s.locks.entries i ∧ ¬ (e.holder = txnId ∧ e.resourceId = resource) := by
    intro i e he
    rcases LockTable.mem_modify he with ⟨rfl, hchain⟩ | ⟨hne, hchain⟩
    · refine ⟨List.mem_of_mem_eraseP hchain, fun hmine => not_of_mem_eraseP hcount e hchain ?_⟩
      simp [hmine]
    · refine ⟨hchain, fun hmine => hne ?_⟩
      rw [← h.placed.slots i e hchain, hmine.2]
  rw [htable]
  refine ⟨h.placed.modify_sublist List.eraseP_sublist, fun i e he => ?_, fun g hg => ?_,
    fun i e he => ?_⟩
  · exact h.listed i e (hgone i e he).1
  · obtain ⟨hg, hother⟩ := List.mem_filter.mp hg
    have hnot : ¬ (g.txnId = txnId ∧ g.resource = resource) := of_decide_eq_true hother
    obtain ⟨e, he, hres, hholder, hmode⟩ := h.entered g hg
    refine ⟨e, LockTable.mem_modify_of_mem he fun _ => ?_, hres, hholder, hmode⟩
    refine (List.mem_eraseP_of_neg ?_).mpr he
    simpa [hres, hholder, and_comm] using hnot
  · obtain ⟨hold, hnot⟩ := hgone i e he
    obtain ⟨g, hg, htxn, hres, hmode⟩ := h.granted i e hold
    refine ⟨g, List.mem_filter.mpr ⟨hg, decide_eq_true ?_⟩, htxn, hres, hmode⟩
    rwa [htxn, hres]

/-- If the entries at a list of addresses can be freed, the entries at the others are left. -/
theorem LockTable.Placed.releaseAddrs_eq {table table' : LockTable} (hp : table.Placed)
    {addrs : List Addr} (hrelease : addrs.foldlM LockTable.releaseAddr table = some table') :
    table' = fun i => (table i).filter fun e => e.addr ∉ addrs := by
  induction addrs generalizing table with
  | nil =>
      cases hrelease
      funext i
      exact (List.filter_eq_self.mpr fun _ _ => decide_eq_true List.not_mem_nil).symm
  | cons addr addrs ih =>
      rw [List.foldlM_cons] at hrelease
      obtain ⟨freed, hfree, hrest⟩ := Option.bind_eq_some_iff.mp hrelease
      obtain ⟨e, hentry, -⟩ := Option.map_eq_some_iff.mp hfree
      obtain ⟨i, -, hfind⟩ := List.exists_of_findSome?_eq_some hentry
      have hfound := List.find?_some hfind
      have haddr : e.addr = addr := of_decide_eq_true hfound
      have hall : e ∈ table.all := LockTable.mem_all.mpr ⟨i, List.mem_of_find?_eq_some hfind⟩
      rw [← haddr, hp.releaseAddr hall] at hfree
      cases hfree
      rw [ih (hp.filter _) hrest]
      funext j
      rw [List.filter_filter]
      refine List.filter_congr fun e' _ => ?_
      simp only [List.mem_cons, not_or, haddr, ne_eq, Bool.decide_and, Bool.and_comm]

theorem InStep.mvcc {a : Action} (h : InStep s) (hown : s.Returns (.act (.mvcc a)))
    (hstep : s.step (.mvcc a) = some after) : InStep after := by
  obtain ⟨system, -, hstep⟩ := Option.bind_eq_some_iff.mp hstep
  cases hends : a.ends s.system.manager with
  | none =>
      rw [hends] at hstep
      cases hstep
      exact ⟨h.placed, h.listed, h.entered, h.granted⟩
  | some txnId =>
      rw [hends] at hstep
      obtain ⟨locks, hlocks, rfl⟩ := Option.map_eq_some_iff.mp hstep
      obtain ⟨table, hrelease, rfl⟩ := Option.map_eq_some_iff.mp hlocks
      have htable := h.placed.releaseAddrs_eq hrelease
      subst htable
      -- Its own entries are freed and no others.
      have hmine : ∀ i, ∀ e ∈ s.locks.entries i,
          e.addr ∈ s.locks.heldLocks txnId ↔ e.holder = txnId := by
        intro i e he
        exact ⟨hown txnId hends i e he, fun hholder => hholder ▸ h.listed i e he⟩
      have hleft : ∀ i, ∀ e,
          e ∈ (s.locks.entries i).filter (fun e => e.addr ∉ s.locks.heldLocks txnId) ↔
            e ∈ s.locks.entries i ∧ e.holder ≠ txnId := by
        intro i e
        rw [List.mem_filter, decide_eq_true_iff]
        exact and_congr_right fun he => not_congr (hmine i e he)
      refine ⟨h.placed.filter _, fun i e he => ?_, fun g hg => ?_, fun i e he => ?_⟩
      · obtain ⟨hold, hother⟩ := (hleft i e).mp he
        dsimp only
        rw [Function.update_of_ne hother]
        exact h.listed i e hold
      · obtain ⟨hg, hother⟩ := List.mem_filter.mp hg
        obtain ⟨e, he, hres, hholder, hmode⟩ := h.entered g hg
        refine ⟨e, (hleft _ e).mpr ⟨he, ?_⟩, hres, hholder, hmode⟩
        rw [hholder]
        exact of_decide_eq_true hother
      · obtain ⟨hold, hother⟩ := (hleft i e).mp he
        obtain ⟨g, hg, htxn, hsame⟩ := h.granted i e hold
        refine ⟨g, List.mem_filter.mpr ⟨hg, decide_eq_true ?_⟩, htxn, hsame⟩
        rwa [htxn]

theorem InStep.call (h : InStep s) {call : LockCall} (hreturns : s.Returns call)
    (hstep : s.call call = some after) : InStep after := by
  cases call with
  | hasLock txnId resource mode =>
      cases hstep
      exact h
  | act a =>
      have hact : s.step a = some after := hstep
      cases a with
      | acquire txnId resource mode gran addr => exact h.acquire hact
      | release txnId resource => exact h.release hreturns hact
      | mvcc a => exact h.mvcc hreturns hact

end Steps

/-! ## Runs -/

/-- In a run that gives locks back as it should, the next call is answered right exactly if it
asks what the table can answer. -/
theorem answersRight_iff (calls : List LockCall) (s : LockSystem)
    (hrun : calls.foldlM LockSystem.call LockSystem.init = some s)
    (hreturns : StepsFit LockSystem.call LockSystem.Returns LockSystem.init calls)
    (call : LockCall) : s.AnswersRight call ↔ s.Asks call := by
  have hinv := foldlM_of_stepsFit (fun s a after h hfits hstep => InStep.call h hfits hstep)
    InStep.init hreturns hrun
  exact hinv.rightAnswer_iff call

/-- Two readers of a row, an upgrade by the one that is left, and a question about it. -/
theorem answersRight_iff_upgrade :
    let calls :=
      (threeBegin ++ [LockAction.acquire 1 (CStr.lit "t.1") .shared .row 1,
        .acquire 2 (CStr.lit "t.1") .shared .row 2, .release 2 (CStr.lit "t.1"),
        .acquire 1 (CStr.lit "t.1") .update .row 3]).map LockCall.act
    ∃ s, calls.foldlM LockSystem.call LockSystem.init = some s ∧
      (s.AnswersRight (.hasLock 1 (CStr.lit "t.1") .shared) ↔
        s.Asks (.hasLock 1 (CStr.lit "t.1") .shared)) := by
  intro calls
  obtain ⟨s, hrun⟩ := Option.isSome_iff_exists.mp
    (show (calls.foldlM LockSystem.call LockSystem.init).isSome = true by decide +kernel)
  exact ⟨s, hrun, answersRight_iff calls s hrun (by decide +kernel) _⟩

/-- Transaction 1 is the only one with a lock and waits for itself; it is told that it has an
EXCLUSIVE lock when it has an UPDATE one, and that it has a resource whose neighbour it has. -/
theorem lock_calls_answer_wrong :
    let after (actions : List LockAction) :=
      ((threeBegin ++ actions).map LockCall.act).foldlM LockSystem.call LockSystem.init
    ((after [.acquire 1 (CStr.lit "t.1") .shared .row 1]).any fun s =>
        ¬ s.AnswersRight (.act (.acquire 1 (CStr.lit "t.1") .exclusive .row 2))) = true ∧
      ((after [.acquire 1 (CStr.lit "t.1") .update .row 1]).any fun s =>
        ¬ s.AnswersRight (.hasLock 1 (CStr.lit "t.1") .exclusive)) = true ∧
      ((after [.acquire 1 (CStr.lit "bA") .shared .row 1,
          .acquire 2 (CStr.lit "ab") .shared .row 2]).any fun s =>
        ¬ s.AnswersRight (.hasLock 1 (CStr.lit "ab") .shared)) = true := by
  refine ⟨by decide +kernel, by decide +kernel, by decide +kernel⟩

end Mvcc
end InventixDB
