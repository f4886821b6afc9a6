import InventixDB.Lib.Runs
import InventixDB.Mvcc.Locks
import Mathlib.Data.List.Nodup
import Mathlib.Data.List.Perm.Subperm

/-!
# LockBooks — the lock table, `held_locks` and `total_locks`

What a transaction holds is kept twice, in the table and in its own list, and the entries are
counted.  A new lock and the end of a transaction keep the three in step.  A lock granted behind
another one is not counted, and a lock given back early stays in its holder's list.
-/

namespace InventixDB
namespace Mvcc

open Lib
open Storage

/-! ## Counting the entries -/

/-- The locks with `g_mvcc.lock_table.total_locks`. -/
structure LockBook where
  sys : LockSystem
  totalLocks : Int

def LockBook.init : LockBook where
  sys := LockSystem.init
  totalLocks := 0

/-- The transaction has an entry of the resource. -/
def LockTable.holds (table : LockTable) (txnId : TxnId) (resource : CStr) : Bool :=
  (table (lockSlot resource)).any fun e => e.resourceId = resource && e.holder = txnId

/-- What an operation adds to `total_locks`: an entry in front counts 1 and one at the end of the
chain nothing, and every entry freed counts -1. -/
def LockSystem.counted (s : LockSystem) : LockAction → Int
  | .mvcc a =>
      match a.ends s.system.manager with
      | none => 0
      | some txnId => -((s.locks.heldLocks txnId).length : Int)
  | .acquire txnId resource _ _ _ =>
      if (s.system.manager.getTransaction txnId).isSome ∧
          s.locks.entries.findLockEntry resource = none then 1
      else 0
  | .release txnId resource => if s.locks.entries.holds txnId resource then -1 else 0

def LockBook.step (b : LockBook) (a : LockAction) : Option LockBook :=
  (b.sys.step a).map fun sys => { sys := sys, totalLocks := b.totalLocks + b.sys.counted a }

/-! ## The entries of the table -/

/-- All entries, one chain after the other. -/
def LockTable.all (table : LockTable) : List LockEntry :=
  (List.finRange lockTableSize).flatMap table

/-- The entries of the other chains. -/
def LockTable.others (table : LockTable) (i : Fin lockTableSize) : List LockEntry :=
  ((List.finRange lockTableSize).erase i).flatMap table

/-- What says whose an entry is. -/
def LockEntry.tag (e : LockEntry) : Addr × TxnId :=
  (e.addr, e.holder)

/-- Where the entries of a transaction lie. -/
def LockTable.heldBy (table : LockTable) (txnId : TxnId) : List Addr :=
  ((table.all.map LockEntry.tag).filter fun tag => tag.2 = txnId).map Prod.fst

section Table

variable {table : LockTable} {resource : CStr} {txnId : TxnId} {i : Fin lockTableSize}
  {f : List LockEntry → List LockEntry} {e : LockEntry}

theorem LockTable.mem_all : e ∈ table.all ↔ ∃ i, e ∈ table i := by
  rw [LockTable.all, List.mem_flatMap]
  exact ⟨fun ⟨i, _, he⟩ => ⟨i, he⟩, fun ⟨i, he⟩ => ⟨i, List.mem_finRange i, he⟩⟩

theorem LockTable.all_perm (table : LockTable) (i : Fin lockTableSize) :
    table.all.Perm (table i ++ table.others i) := by
  have hperm := List.perm_cons_erase (List.mem_finRange i)
  exact hperm.flatMap_right table

theorem LockTable.others_update (table : LockTable) (i : Fin lockTableSize)
    (chain : List LockEntry) :
    LockTable.others (Function.update table i chain) i = table.others i := by
  rw [LockTable.others, LockTable.others]
  refine List.flatMap_congr fun j hj => ?_
  have hne : j ≠ i := ((List.nodup_finRange _).mem_erase_iff.mp hj).1
  rw [Function.update_of_ne hne]

/-- A change of one chain, in the list of all entries. -/
theorem LockTable.all_modify (table : LockTable) (resource : CStr)
    (f : List LockEntry → List LockEntry) :
    (table.modify resource f).all.Perm
      (f (table (lockSlot resource)) ++ table.others (lockSlot resource)) := by
  have hperm := (table.modify resource f).all_perm (lockSlot resource)
  rwa [LockTable.modify, LockTable.others_update, Function.update_self] at hperm

/-- A chain with one entry more. -/
theorem LockTable.all_modify_cons {chain : List LockEntry}
    (hf : (f chain).Perm (e :: chain)) (hchain : table (lockSlot resource) = chain) :
    (table.modify resource f).all.Perm (e :: table.all) := by
  refine (table.all_modify resource f).trans ?_
  rw [hchain]
  refine (hf.append_right _).trans ?_
  rw [List.cons_append]
  refine List.Perm.cons e ?_
  rw [← hchain]
  exact (table.all_perm _).symm

theorem map_tag_upgradeFirst (resource : CStr) (mode : LockMode) (chain : List LockEntry) :
    (upgradeFirst resource mode chain).map LockEntry.tag = chain.map LockEntry.tag := by
  induction chain with
  | nil => rfl
  | cons e es ih =>
      rw [upgradeFirst]
      split
      · rfl
      · rw [List.map_cons, ih, List.map_cons]

/-- An upgrade changes no holder and no address. -/
theorem LockTable.tags_upgrade (table : LockTable) (resource : CStr) (mode : LockMode) :
    ((table.modify resource (upgradeFirst resource mode)).all.map LockEntry.tag).Perm
      (table.all.map LockEntry.tag) := by
  refine ((table.all_modify resource _).map _).trans ?_
  rw [List.map_append, map_tag_upgradeFirst, ← List.map_append]
  exact ((table.all_perm _).map _).symm

theorem LockTable.mem_heldBy {addr : Addr} :
    addr ∈ table.heldBy txnId ↔ ∃ e ∈ table.all, e.addr = addr ∧ e.holder = txnId := by
  simp only [LockTable.heldBy, List.mem_map, List.mem_filter, decide_eq_true_eq]
  constructor
  · rintro ⟨tag, ⟨⟨e, he, rfl⟩, hholder⟩, rfl⟩
    exact ⟨e, he, rfl, hholder⟩
  · rintro ⟨e, he, rfl, hholder⟩
    exact ⟨e.tag, ⟨⟨e, he, rfl⟩, hholder⟩, rfl⟩

/-- Tables with the same tags have the same holders. -/
theorem LockTable.heldBy_perm {table' : LockTable}
    (htags : (table'.all.map LockEntry.tag).Perm (table.all.map LockEntry.tag)) (txnId : TxnId) :
    (table'.heldBy txnId).Perm (table.heldBy txnId) :=
  (htags.filter _).map _

/-- A further entry is its holder's and nobody else's. -/
theorem LockTable.heldBy_cons {table' : LockTable} (hall : table'.all.Perm (e :: table.all))
    (txnId : TxnId) :
    (table'.heldBy txnId).Perm
      (if e.holder = txnId then e.addr :: table.heldBy txnId else table.heldBy txnId) := by
  have hperm : (table'.heldBy txnId).Perm
      ((((e :: table.all).map LockEntry.tag).filter fun tag => tag.2 = txnId).map Prod.fst) :=
    (((hall.map LockEntry.tag).filter _).map _)
  refine hperm.trans ?_
  rw [List.map_cons]
  by_cases hholder : e.holder = txnId
  · have hpos : decide (e.tag.2 = txnId) = true := decide_eq_true hholder
    rw [if_pos hholder, List.filter_cons, if_pos hpos, List.map_cons]
    exact List.Perm.refl _
  · have hneg : ¬ decide (e.tag.2 = txnId) = true := fun h => hholder (of_decide_eq_true h)
    rw [if_neg hholder, List.filter_cons, if_neg hneg]
    exact List.Perm.refl _

end Table

/-! ## Exact books -/

/-- An entry of the table is one its holder lists, a holder is registered, and the entries are
counted. -/
structure Exact (b : LockBook) : Prop where
  held : ∀ txnId, (b.sys.system.manager.getTransaction txnId).isSome →
    (b.sys.locks.entries.heldBy txnId).Perm (b.sys.locks.heldLocks txnId)
  owners : ∀ e ∈ b.sys.locks.entries.all,
    (b.sys.system.manager.getTransaction e.holder).isSome
  total : b.totalLocks = (b.sys.locks.entries.all.length : Int)

/-- A transaction that ends takes its entries out of every chain and nothing else. -/
def EndsClean (b : LockBook) : LockAction → Prop
  | .mvcc a =>
      ∀ txnId ∈ a.ends b.sys.system.manager, ∃ locks,
        b.sys.locks.releaseAllLocks txnId = some locks ∧
          ∀ i, locks.entries i = (b.sys.locks.entries i).filter fun e => e.holder ≠ txnId
  | .acquire _ _ _ _ _ => True
  | .release _ _ => True

/-- The books are exact in every state of a run, and every end is clean. -/
def BooksKept : LockBook → List LockAction → Prop
  | b, [] => Exact b
  | b, a :: actions =>
      Exact b ∧ EndsClean b a ∧ ∀ after ∈ b.step a, BooksKept after actions

/-- A request finds no entry of another transaction that it does not conflict with, and a release
finds nothing to give back. -/
def LockBook.Fits (b : LockBook) : LockAction → Prop
  | .mvcc _ => True
  | .acquire txnId resource mode _ addr =>
      b.sys.locks.entries.entryAt addr = none →
        (b.sys.system.manager.getTransaction txnId).isSome →
          ∀ existing ∈ b.sys.locks.entries.findLockEntry resource,
            existing.holder = txnId ∨ locksConflict existing.mode mode = true
  | .release txnId resource => b.sys.locks.entries.holds txnId resource = false

/-! ## Giving everything back -/

/-- Entries have addresses of their own and lie in the chains of their resources. -/
structure LockTable.Placed (table : LockTable) : Prop where
  addrs : (table.all.map LockEntry.addr).Nodup
  slots : ∀ i, ∀ e ∈ table i, lockSlot e.resourceId = i

section Release

variable {table : LockTable} {txnId : TxnId} {addr : Addr} {e e' : LockEntry}

theorem LockTable.Placed.eq_of_addr (hp : table.Placed) (he : e ∈ table.all)
    (he' : e' ∈ table.all) (haddr : e.addr = e'.addr) : e = e' :=
  List.inj_on_of_nodup_map hp.addrs he he' haddr

theorem LockTable.entryAt_eq (hp : table.Placed) (he : e ∈ table.all) :
    table.entryAt e.addr = some e := by
  obtain ⟨i, hi⟩ := LockTable.mem_all.mp he
  have hsome : (table.entryAt e.addr).isSome := by
    rw [LockTable.entryAt, List.findSome?_isSome_iff]
    refine ⟨i, List.mem_finRange i, List.find?_isSome.mpr ⟨e, hi, decide_eq_true rfl⟩⟩
  obtain ⟨e', he'⟩ := Option.isSome_iff_exists.mp hsome
  obtain ⟨j, -, hfind⟩ := List.exists_of_findSome?_eq_some he'
  have hfound := List.find?_some hfind
  have haddr : e'.addr = e.addr := of_decide_eq_true hfound
  have hmem : e' ∈ table.all := LockTable.mem_all.mpr ⟨j, List.mem_of_find?_eq_some hfind⟩
  rw [he', hp.eq_of_addr hmem he haddr]

theorem LockTable.ne_of_entryAt_eq_none (h : table.entryAt addr = none) :
    ∀ e ∈ table.all, e.addr ≠ addr := by
  intro e he heq
  obtain ⟨i, hi⟩ := LockTable.mem_all.mp he
  have hchain := List.findSome?_eq_none_iff.mp h i (List.mem_finRange i)
  exact List.find?_eq_none.mp hchain e hi (decide_eq_true heq)

/-- Erasing by an address that only one entry can have is filtering. -/
theorem eraseP_addr (chain : List LockEntry) (hnd : (chain.map LockEntry.addr).Nodup)
    (addr : Addr) :
    chain.eraseP (fun e => e.addr = addr) = chain.filter fun e => e.addr ≠ addr := by
  induction chain with
  | nil => rfl
  | cons e es ih =>
      rw [List.map_cons, List.nodup_cons] at hnd
      by_cases haddr : e.addr = addr
      · have hpos : decide (e.addr = addr) = true := decide_eq_true haddr
        have hneg : ¬ decide (e.addr ≠ addr) = true := fun h => of_decide_eq_true h haddr
        rw [List.eraseP_cons, hpos, cond_true, List.filter_cons, if_neg hneg]
        refine (List.filter_eq_self.mpr fun e' he' => decide_eq_true ?_).symm
        rintro rfl
        exact hnd.1 (List.mem_map.mpr ⟨e', he', haddr.symm⟩)
      · have hneg : decide (e.addr = addr) = false := decide_eq_false haddr
        have hpos : decide (e.addr ≠ addr) = true := decide_eq_true haddr
        rw [List.eraseP_cons, hneg, cond_false, List.filter_cons, if_pos hpos, ih hnd.2]

theorem LockTable.Placed.nodup_chain (hp : table.Placed) (i : Fin lockTableSize) :
    ((table i).map LockEntry.addr).Nodup := by
  have hperm := (table.all_perm i).map LockEntry.addr
  rw [List.map_append] at hperm
  exact (List.nodup_append.mp (hperm.nodup_iff.mp hp.addrs)).1

/-- Freeing the entry at an address leaves the entries at the others. -/
theorem LockTable.Placed.releaseAddr (hp : table.Placed) (he : e ∈ table.all) :
    table.releaseAddr e.addr = some fun i => (table i).filter fun e' => e'.addr ≠ e.addr := by
  obtain ⟨j, hj⟩ := LockTable.mem_all.mp he
  rw [LockTable.releaseAddr, LockTable.entryAt_eq hp he, Option.map_some]
  refine congrArg some (funext fun i => ?_)
  rw [LockTable.modify]
  by_cases hi : i = lockSlot e.resourceId
  · rw [hi, Function.update_self]
    exact eraseP_addr _ (hp.nodup_chain _) _
  · rw [Function.update_of_ne hi]
    refine (List.filter_eq_self.mpr fun e' he' => ?_).symm
    refine decide_eq_true (fun haddr : e'.addr = e.addr => hi ?_)
    have heq := hp.eq_of_addr (LockTable.mem_all.mpr ⟨i, he'⟩) he haddr
    rw [← hp.slots i e' he', heq]

theorem LockTable.all_filter (table : LockTable) (p : LockEntry → Bool) :
    LockTable.all (fun i => (table i).filter p) = table.all.filter p := by
  rw [LockTable.all, LockTable.all, List.filter_flatMap]

/-- The entries of one transaction, taken out, leave what another one holds. -/
theorem LockTable.heldBy_filter {txnId' : TxnId} (table : LockTable) (hne : txnId' ≠ txnId) :
    LockTable.heldBy (fun i => (table i).filter fun e => e.holder ≠ txnId) txnId' =
      table.heldBy txnId' := by
  rw [LockTable.heldBy, LockTable.heldBy, LockTable.all_filter, List.filter_map, List.filter_map,
    List.filter_filter]
  refine congrArg _ (congrArg _ (List.filter_congr fun e _ => ?_))
  by_cases hholder : e.holder = txnId'
  · have hother : e.holder ≠ txnId := fun h => hne (hholder.symm.trans h)
    simp [LockEntry.tag, hholder, hne]
  · simp [LockEntry.tag, hholder]

/-- They are as many as it lists. -/
theorem LockTable.length_filter (table : LockTable) (txnId : TxnId) :
    table.all.length =
      (LockTable.all fun i => (table i).filter fun e => e.holder ≠ txnId).length +
        (table.heldBy txnId).length := by
  rw [LockTable.all_filter, LockTable.heldBy, List.length_map, List.filter_map, List.length_map,
    List.length_eq_length_filter_add (fun e : LockEntry => e.holder ≠ txnId)]
  refine Nat.add_left_cancel_iff.mpr (congrArg List.length (List.filter_congr fun e _ => ?_))
  by_cases hholder : e.holder = txnId
  · simp [LockEntry.tag, hholder]
  · simp [LockEntry.tag, hholder]

theorem LockTable.Placed.filter (hp : table.Placed) (p : LockEntry → Bool) :
    LockTable.Placed fun i => (table i).filter p where
  addrs := by
    rw [LockTable.all_filter]
    exact hp.addrs.sublist (List.filter_sublist.map _)
  slots i e he := hp.slots i e (List.mem_of_mem_filter he)

/-- Freeing the entries at a list of addresses. -/
theorem LockTable.Placed.releaseAddrs (hp : table.Placed) {addrs : List Addr}
    (hnd : addrs.Nodup) (hmem : ∀ addr ∈ addrs, ∃ e ∈ table.all, e.addr = addr) :
    addrs.foldlM LockTable.releaseAddr table =
      some fun i => (table i).filter fun e => e.addr ∉ addrs := by
  induction addrs generalizing table with
  | nil =>
      refine congrArg some (funext fun i => ?_)
      exact (List.filter_eq_self.mpr fun _ _ => decide_eq_true List.not_mem_nil).symm
  | cons addr addrs ih =>
      obtain ⟨hout, hnd'⟩ := List.nodup_cons.mp hnd
      obtain ⟨e, he, rfl⟩ := hmem addr List.mem_cons_self
      rw [List.foldlM_cons, hp.releaseAddr he]
      change List.foldlM LockTable.releaseAddr
        (fun i => (table i).filter fun e' => e'.addr ≠ e.addr) addrs = _
      rw [ih (hp.filter _) hnd']
      · refine congrArg some (funext fun i => ?_)
        rw [List.filter_filter]
        refine List.filter_congr fun e' _ => ?_
        simp only [List.mem_cons, not_or, ← Bool.decide_and, and_comm, ne_eq]
      · intro addr haddr
        obtain ⟨e', he', hto⟩ := hmem addr (List.mem_cons_of_mem _ haddr)
        refine ⟨e', ?_, hto⟩
        rw [LockTable.all_filter]
        refine List.mem_filter.mpr ⟨he', decide_eq_true fun heq => hout ?_⟩
        rwa [← heq, hto]

end Release

/-! ## Other changes of the table -/

section Changes

variable {table : LockTable} {resource : CStr} {lock : LockEntry}
  {f : List LockEntry → List LockEntry}

/-- A new entry at an address that is free. -/
theorem LockTable.Placed.modify_cons (hp : table.Placed)
    (hf : ∀ chain, (f chain).Perm (lock :: chain)) (hres : lock.resourceId = resource)
    (hfree : ∀ e ∈ table.all, e.addr ≠ lock.addr) : (table.modify resource f).Placed where
  addrs := by
    have hperm := ((LockTable.all_modify_cons (hf _) rfl).map LockEntry.addr :
      ((table.modify resource f).all.map LockEntry.addr).Perm _)
    refine hperm.nodup_iff.mpr ?_
    rw [List.map_cons, List.nodup_cons]
    refine ⟨fun hmem => ?_, hp.addrs⟩
    obtain ⟨e, he, haddr⟩ := List.mem_map.mp hmem
    exact hfree e he haddr
  slots i e he := by
    rw [LockTable.modify] at he
    by_cases hi : i = lockSlot resource
    · rw [hi, Function.update_self] at he
      rcases List.mem_cons.mp ((hf _).mem_iff.mp he) with rfl | hold
      · rw [hres, hi]
      · rw [hi]
        exact hp.slots _ e hold
    · rw [Function.update_of_ne hi] at he
      exact hp.slots i e he

theorem exists_of_mem_upgradeFirst {mode : LockMode} {chain : List LockEntry} {e : LockEntry}
    (he : e ∈ upgradeFirst resource mode chain) :
    ∃ e' ∈ chain, e'.resourceId = e.resourceId ∧ e'.tag = e.tag := by
  induction chain with
  | nil => cases he
  | cons e' es ih =>
      rw [upgradeFirst] at he
      split at he
      · rcases List.mem_cons.mp he with rfl | he
        · exact ⟨e', List.mem_cons_self, rfl, rfl⟩
        · exact ⟨e, List.mem_cons_of_mem _ he, rfl, rfl⟩
      · rcases List.mem_cons.mp he with rfl | he
        · exact ⟨e, List.mem_cons_self, rfl, rfl⟩
        · obtain ⟨e'', hmem, hsame⟩ := ih he
          exact ⟨e'', List.mem_cons_of_mem _ hmem, hsame⟩

theorem LockTable.Placed.upgrade (hp : table.Placed) (resource : CStr) (mode : LockMode) :
    (table.modify resource (upgradeFirst resource mode)).Placed where
  addrs := by
    have hperm := (table.tags_upgrade resource mode).map Prod.fst
    rw [List.map_map, List.map_map] at hperm
    exact hperm.nodup_iff.mpr hp.addrs
  slots i e he := by
    rw [LockTable.modify] at he
    by_cases hi : i = lockSlot resource
    · rw [hi, Function.update_self] at he
      obtain ⟨e', hmem, hres, -⟩ := exists_of_mem_upgradeFirst he
      rw [← hres, hi]
      exact hp.slots _ e' hmem
    · rw [Function.update_of_ne hi] at he
      exact hp.slots i e he

/-- A release frees one entry of the transaction. -/
theorem LockTable.all_release {txnId : TxnId} (hholds : table.holds txnId resource = true) :
    ∃ e, e.holder = txnId ∧ e ∈ table.all ∧
      table.all.Perm (e :: (table.modify resource fun chain =>
        chain.eraseP fun e => e.resourceId = resource && e.holder = txnId).all) := by
  obtain ⟨e₀, he₀, hp₀⟩ := List.any_eq_true.mp hholds
  obtain ⟨e, xs, ys, -, hpe, hsplit, herase⟩ :=
    @List.exists_of_eraseP _ (fun e => e.resourceId = resource && e.holder = txnId) _ _ he₀ hp₀
  have hholder : e.holder = txnId := by
    rw [Bool.and_eq_true] at hpe
    exact of_decide_eq_true hpe.2
  refine ⟨e, hholder, LockTable.mem_all.mpr ⟨lockSlot resource, ?_⟩, ?_⟩
  · rw [hsplit]
    exact List.mem_append_right _ List.mem_cons_self
  · refine (table.all_perm (lockSlot resource)).trans ?_
    have hall := table.all_modify resource fun chain =>
      chain.eraseP fun e => e.resourceId = resource && e.holder = txnId
    refine List.Perm.trans ?_ (hall.symm.cons e)
    rw [herase, hsplit, List.append_assoc, List.cons_append, List.append_assoc]
    exact List.perm_middle

end Changes

/-! ## The invariant -/

/-- Exact books, and what keeps them so. -/
structure Tidy (b : LockBook) : Prop where
  exact : Exact b
  wellFormed : WellFormed b.sys.system
  placed : b.sys.locks.entries.Placed
  idle : ∀ txnId, b.sys.system.manager.getTransaction txnId = none →
    b.sys.locks.heldLocks txnId = []

/-! ## Who is registered -/

section Registered

variable {s s' : System} {m : MVCCManager} {txnId txnId' : TxnId} {a : Action}

theorem registered_iff :
    (m.getTransaction txnId).isSome ↔ ∃ txn, some txn ∈ m.activeTxns ∧ txn.txnId = txnId := by
  constructor
  · intro h
    obtain ⟨txn, htxn⟩ := Option.isSome_iff_exists.mp h
    obtain ⟨hmem, hid⟩ := mem_of_getTransaction htxn
    exact ⟨txn, hmem, hid⟩
  · rintro ⟨txn, hmem, hid⟩
    rw [Option.isSome_iff_ne_none]
    exact fun hnone => SlotTable.find_eq_none_iff.mp hnone txn hmem hid

/-- Removing a transaction removes that one. -/
theorem registered_removeTransaction (hw : WellFormed s) :
    ((s.manager.removeTransaction txnId).getTransaction txnId').isSome ↔
      (s.manager.getTransaction txnId').isSome ∧ txnId' ≠ txnId := by
  rw [registered_iff, registered_iff]
  constructor
  · rintro ⟨txn, hmem, rfl⟩
    obtain ⟨hold, hne⟩ := (mem_removeTransaction hw).mp hmem
    exact ⟨⟨txn, hold, rfl⟩, hne⟩
  · rintro ⟨⟨txn, hmem, rfl⟩, hne⟩
    exact ⟨txn, (mem_removeTransaction hw).mpr ⟨hmem, hne⟩, rfl⟩

/-- Only a registered transaction is ended. -/
theorem isSome_of_ends (hends : a.ends m = some txnId) : (m.getTransaction txnId).isSome := by
  cases a with
  | commit id =>
      obtain ⟨hany, hid⟩ := Option.ite_none_right_eq_some.mp hends
      cases hid
      cases hget : m.getTransaction txnId with
      | none =>
          rw [hget] at hany
          cases hany
      | some txn => rfl
  | abort id =>
      obtain ⟨hsome, hid⟩ := Option.ite_none_right_eq_some.mp hends
      cases hid
      exact hsome
  -- The other actions end nobody.
  | _ => cases hends

/-- An action that ends a transaction takes it out. -/
theorem registered_of_ends (hw : WellFormed s) (hstep : s.step a = some s')
    (hends : a.ends s.manager = some txnId) :
    (s'.manager.getTransaction txnId').isSome ↔
      (s.manager.getTransaction txnId').isSome ∧ txnId' ≠ txnId := by
  cases a with
  | commit id =>
      obtain ⟨hany, hid⟩ := Option.ite_none_right_eq_some.mp hends
      cases hid
      cases hget : s.manager.getTransaction txnId with
      | none =>
          rw [hget] at hany
          cases hany
      | some txn =>
          rw [hget] at hany
          have hactive : txn.state = .active := of_decide_eq_true hany
          cases hstep
          have hcommit : (s.manager.commitTransaction txnId).2 =
              { s.manager with
                currentTimestamp := s.manager.currentTimestamp + 1
                commitLog := s.manager.commitLog ++
                  [(txnId, s.manager.currentTimestamp + 1)] }.removeTransaction txnId := by
            rw [MVCCManager.commitTransaction, hget]
            dsimp only
            rw [if_neg (not_not_intro hactive), if_neg]
            · rfl
            · rw [MVCCManager.checkWriteConflict, MVCCManager.checkReadConflict, hget]
              simp
          dsimp only
          rw [hcommit]
          exact @registered_removeTransaction s txnId txnId' hw
  | abort id =>
      obtain ⟨hsome, hid⟩ := Option.ite_none_right_eq_some.mp hends
      cases hid
      cases hstep
      obtain ⟨txn, hget⟩ := Option.isSome_iff_exists.mp hsome
      dsimp only
      rw [MVCCManager.abortTransaction, hget]
      exact registered_removeTransaction hw
  -- The other actions end nobody.
  | _ => cases hends

/-- Any other action takes nobody out. -/
theorem registered_mono (hw : WellFormed s) (hstep : s.step a = some s')
    (hends : a.ends s.manager = none) (hreg : (s.manager.getTransaction txnId).isSome) :
    (s'.manager.getTransaction txnId).isSome := by
  cases a with
  | allocate isolation =>
      cases hstep
      exact hreg
  | stamp id =>
      obtain ⟨txn, -, rfl⟩ := Option.map_eq_some_iff.mp hstep
      exact hreg
  | snapshot id =>
      obtain ⟨txn, -, rfl⟩ := Option.map_eq_some_iff.mp hstep
      exact hreg
  | register id =>
      obtain ⟨txn, -, rfl⟩ := Option.map_eq_some_iff.mp hstep
      obtain ⟨txn', hmem, hid⟩ := registered_iff.mp hreg
      exact registered_iff.mpr ⟨txn', SlotTable.mem_insert.mpr (Or.inl hmem), hid⟩
  | prepare id =>
      cases hstep
      rcases prepareTransaction_cases s.manager id with heq | heq
      · dsimp only
        rw [heq]
        exact hreg
      · dsimp only
        rw [heq, registered_iff]
        obtain ⟨txn, hmem, hid⟩ := registered_iff.mp hreg
        by_cases hsame : txn.txnId = id
        · exact ⟨{ txn with state := .preparing },
            (SlotTable.mem_update hw.distinct).mpr (Or.inr ⟨txn, hmem, hsame, rfl⟩), hid⟩
        · exact ⟨txn, (SlotTable.mem_update hw.distinct).mpr (Or.inl ⟨hmem, hsame⟩), hid⟩
  | commit id =>
      cases hstep
      rcases commitTransaction_cases s.manager id with heq | ⟨txn, ts, hget, hactive, -⟩
      · dsimp only
        rw [heq]
        exact hreg
      · rw [Action.ends, hget, Option.any_some, if_pos (decide_eq_true hactive)] at hends
        cases hends
  | abort id =>
      cases hstep
      rcases abortTransaction_cases s.manager id with heq | heq
      · dsimp only
        rw [heq]
        exact hreg
      · cases hget : s.manager.getTransaction id with
        | none =>
            dsimp only
            rw [MVCCManager.abortTransaction, hget]
            exact hreg
        | some txn =>
            rw [Action.ends, hget, Option.isSome_some, if_pos rfl] at hends
            cases hends
  | createVersion id data =>
      cases hstep
      exact hreg
  | markDeleted version id =>
      cases hstep
      exact hreg

end Registered

/-! ## Ends -/

section Steps

variable {b after : LockBook} {a : Action} {txnId : TxnId} {resource : CStr} {mode : LockMode}
  {gran : LockGranularity} {addr : Addr}

/-- What a transaction lists is what it holds, entry by entry. -/
theorem Tidy.mem_heldLocks (ht : Tidy b)
    (hreg : (b.sys.system.manager.getTransaction txnId).isSome) {e : LockEntry}
    (he : e ∈ b.sys.locks.entries.all) :
    e.addr ∈ b.sys.locks.heldLocks txnId ↔ e.holder = txnId := by
  rw [← (ht.exact.held txnId hreg).mem_iff, LockTable.mem_heldBy]
  constructor
  · rintro ⟨e', he', haddr, hholder⟩
    rwa [← ht.placed.eq_of_addr he' he haddr]
  · exact fun hholder => ⟨e, he, rfl, hholder⟩

theorem Tidy.releaseAllLocks (ht : Tidy b)
    (hreg : (b.sys.system.manager.getTransaction txnId).isSome) :
    b.sys.locks.releaseAllLocks txnId =
      some
        { entries := fun i => (b.sys.locks.entries i).filter fun e => e.holder ≠ txnId
          heldLocks := Function.update b.sys.locks.heldLocks txnId [] } := by
  have hheld := ht.exact.held txnId hreg
  have hnd : (b.sys.locks.heldLocks txnId).Nodup := by
    refine hheld.nodup_iff.mp ?_
    refine ht.placed.addrs.sublist ?_
    have hsub : List.Sublist
        ((b.sys.locks.entries.all.map LockEntry.tag).filter fun tag => tag.2 = txnId)
        (b.sys.locks.entries.all.map LockEntry.tag) := List.filter_sublist
    have hmap := hsub.map Prod.fst
    rwa [List.map_map] at hmap
  have hmem : ∀ addr ∈ b.sys.locks.heldLocks txnId,
      ∃ e ∈ b.sys.locks.entries.all, e.addr = addr := by
    intro addr haddr
    obtain ⟨e, he, heq, -⟩ := LockTable.mem_heldBy.mp (hheld.mem_iff.mpr haddr)
    exact ⟨e, he, heq⟩
  rw [LockManager.releaseAllLocks, ht.placed.releaseAddrs hnd hmem, Option.map_some]
  congr 2
  funext i
  refine List.filter_congr fun e he => ?_
  have hiff := ht.mem_heldLocks hreg (LockTable.mem_all.mpr ⟨i, he⟩)
  exact decide_eq_decide.mpr (not_congr hiff)

theorem Tidy.endsClean (ht : Tidy b) (a : LockAction) : EndsClean b a := by
  cases a with
  | mvcc a =>
      intro txnId hends
      exact ⟨_, ht.releaseAllLocks (isSome_of_ends hends), fun i => rfl⟩
  | acquire txnId resource mode gran addr => trivial
  | release txnId resource => trivial

/-! ## One step -/

theorem Tidy.mvcc (ht : Tidy b) (hstep : b.step (.mvcc a) = some after) : Tidy after := by
  obtain ⟨sys, hsys, rfl⟩ := Option.map_eq_some_iff.mp hstep
  obtain ⟨system, hsystem, hsys⟩ := Option.bind_eq_some_iff.mp hsys
  have hw := ht.wellFormed.step hsystem
  cases hends : a.ends b.sys.system.manager with
  | none =>
      rw [hends] at hsys
      cases hsys
      have hmono := fun t => @registered_mono _ _ t a ht.wellFormed hsystem hends
      refine ⟨⟨fun t hreg => ?_, fun e he => hmono _ (ht.exact.owners e he), ?_⟩, hw, ht.placed,
        fun t hnone => ht.idle t ?_⟩
      · by_cases hold : (b.sys.system.manager.getTransaction t).isSome
        · exact ht.exact.held t hold
        · -- A transaction registered just now holds and lists nothing.
          have hempty : b.sys.locks.entries.heldBy t = [] := by
            rw [List.eq_nil_iff_forall_not_mem]
            intro addr haddr
            obtain ⟨e, he, -, rfl⟩ := LockTable.mem_heldBy.mp haddr
            exact hold (ht.exact.owners e he)
          have hlist := ht.idle t (Option.not_isSome_iff_eq_none.mp hold)
          dsimp only
          rw [hempty, hlist]
      · dsimp only
        rw [LockSystem.counted, hends]
        exact (Int.add_zero _).trans ht.exact.total
      · by_contra hsome
        have hreg := hmono t (Option.isSome_iff_ne_none.mpr hsome)
        rw [hnone] at hreg
        cases hreg
  | some txnId =>
      rw [hends] at hsys
      have hreg := fun t => @registered_of_ends _ _ txnId t a ht.wellFormed hsystem hends
      have hown := isSome_of_ends hends
      dsimp only at hsys
      rw [ht.releaseAllLocks hown] at hsys
      cases hsys
      have hall : ∀ p : LockEntry → Bool,
          LockTable.all (fun i => (b.sys.locks.entries i).filter p) =
            b.sys.locks.entries.all.filter p := LockTable.all_filter _
      refine ⟨⟨fun t hreg' => ?_, fun e he => ?_, ?_⟩, hw, ht.placed.filter _, fun t hnone => ?_⟩
      · obtain ⟨hold, hne⟩ := (hreg t).mp hreg'
        dsimp only
        rw [Function.update_of_ne hne, LockTable.heldBy_filter _ hne]
        exact ht.exact.held t hold
      · dsimp only at he ⊢
        rw [hall] at he
        obtain ⟨he, hne⟩ := List.mem_filter.mp he
        exact (hreg e.holder).mpr ⟨ht.exact.owners e he, of_decide_eq_true hne⟩
      · have hlen := LockTable.length_filter b.sys.locks.entries txnId
        have hheld := (ht.exact.held txnId hown).length_eq
        have htotal := ht.exact.total
        dsimp only
        rw [LockSystem.counted, hends, htotal]
        dsimp only
        omega
      · by_cases heq : t = txnId
        · dsimp only
          rw [heq, Function.update_self]
        · dsimp only
          rw [Function.update_of_ne heq]
          refine ht.idle t ?_
          by_contra hsome
          have hreg' := (hreg t).mpr ⟨Option.isSome_iff_ne_none.mpr hsome, heq⟩
          rw [hnone] at hreg'
          cases hreg'

theorem acquireLock_of_not_registered {m : MVCCManager} {l : LockManager}
    (hget : m.getTransaction txnId = none) :
    l.acquireLock m txnId resource mode gran addr = (-1, l) := by
  rw [LockManager.acquireLock, hget]

theorem acquireLock_of_unlocked {m : MVCCManager} {l : LockManager} {txn : TransactionDescriptor}
    (hget : m.getTransaction txnId = some txn)
    (hfind : l.entries.findLockEntry resource = none) :
    l.acquireLock m txnId resource mode gran addr =
      (0,
        { entries := l.entries.modify resource fun chain =>
            { addr := addr, resourceId := resource, granularity := gran, mode := mode,
              holder := txnId } :: chain
          heldLocks := Function.update l.heldLocks txnId (l.heldLocks txnId ++ [addr]) }) := by
  rw [LockManager.acquireLock, hget, hfind]

/-- A request that finds an entry is granted by it, upgrades it, waits, or goes behind it. -/
theorem acquireLock_of_locked {m : MVCCManager} {l : LockManager} {txn : TransactionDescriptor}
    {existing : LockEntry} (hget : m.getTransaction txnId = some txn)
    (hfind : l.entries.findLockEntry resource = some existing) :
    l.acquireLock m txnId resource mode gran addr =
      if existing.holder = txnId ∧ mode.toNat ≤ existing.mode.toNat then (0, l)
      else if existing.holder = txnId ∧ locksConflict existing.mode mode = false then
        (0, { l with entries := l.entries.modify resource (upgradeFirst resource mode) })
      else if locksConflict existing.mode mode then (-1, l)
      else
        (0,
          { entries := l.entries.modify resource fun chain => chain ++
              [{ addr := addr, resourceId := resource, granularity := gran, mode := mode,
                 holder := txnId }]
            heldLocks := Function.update l.heldLocks txnId (l.heldLocks txnId ++ [addr]) }) := by
  rw [LockManager.acquireLock, hget, hfind]

/-- An unlocked resource gets an entry, and an own lock a higher mode; both are entered. -/
theorem Tidy.acquire (ht : Tidy b) (hfits : b.Fits (.acquire txnId resource mode gran addr))
    (hstep : b.step (.acquire txnId resource mode gran addr) = some after) : Tidy after := by
  obtain ⟨sys, hsys, rfl⟩ := Option.map_eq_some_iff.mp hstep
  rw [LockSystem.step, Option.ite_none_left_eq_some] at hsys
  obtain ⟨haddr, hsys⟩ := hsys
  have hfree : b.sys.locks.entries.entryAt addr = none := Option.not_isSome_iff_eq_none.mp haddr
  have htotal := ht.exact.total
  -- Nothing is changed and nothing is counted.
  have hsame : ∀ grants, b.sys.counted (.acquire txnId resource mode gran addr) = 0 →
      Tidy
        { sys := { b.sys with grants := grants }
          totalLocks :=
            b.totalLocks + b.sys.counted (.acquire txnId resource mode gran addr) } := by
    intro grants hcount
    refine ⟨⟨ht.exact.held, ht.exact.owners, ?_⟩, ht.wellFormed, ht.placed, ht.idle⟩
    rw [hcount]
    exact (Int.add_zero _).trans htotal
  cases hget : b.sys.system.manager.getTransaction txnId with
  | none =>
      rw [acquireLock_of_not_registered hget] at hsys
      cases hsys
      refine hsame _ ?_
      rw [LockSystem.counted, if_neg]
      rw [hget]
      exact fun h => Bool.false_ne_true h.1
  | some txn =>
      have hreg : (b.sys.system.manager.getTransaction txnId).isSome := by rw [hget]; rfl
      cases hfind : b.sys.locks.entries.findLockEntry resource with
      | none =>
          rw [acquireLock_of_unlocked hget hfind] at hsys
          cases hsys
          have hcount : b.sys.counted (.acquire txnId resource mode gran addr) = 1 :=
            if_pos ⟨hreg, hfind⟩
          have hne := LockTable.ne_of_entryAt_eq_none hfree
          have hall := @LockTable.all_modify_cons b.sys.locks.entries resource
            (fun chain =>
              { addr := addr, resourceId := resource, granularity := gran, mode := mode,
                holder := txnId } :: chain) _ _ (List.Perm.refl _) rfl
          refine ⟨⟨fun t hregt => ?_, fun e he => ?_, ?_⟩, ht.wellFormed,
            ht.placed.modify_cons (fun _ => List.Perm.refl _) rfl hne, fun t hnone => ?_⟩
          · refine (LockTable.heldBy_cons hall t).trans ?_
            dsimp only
            by_cases hown : txnId = t
            · subst hown
              rw [if_pos rfl, Function.update_self]
              exact ((ht.exact.held txnId hreg).cons addr).trans
                (List.perm_append_singleton _ _).symm
            · rw [if_neg hown, Function.update_of_ne (Ne.symm hown)]
              exact ht.exact.held t hregt
          · rcases List.mem_cons.mp (hall.mem_iff.mp he) with rfl | hold
            · exact hreg
            · exact ht.exact.owners e hold
          · dsimp only
            rw [hcount, hall.length_eq, List.length_cons, htotal]
            rfl
          · have hne' : t ≠ txnId := by
              rintro rfl
              dsimp only at hnone
              rw [hget] at hnone
              cases hnone
            dsimp only
            rw [Function.update_of_ne hne']
            exact ht.idle t hnone
      | some existing =>
          have hcount : b.sys.counted (.acquire txnId resource mode gran addr) = 0 := by
            rw [LockSystem.counted, if_neg]
            rw [hfind]
            exact fun h => Option.some_ne_none existing h.2
          have hsafe := hfits hfree hreg existing hfind
          have hlocks := @acquireLock_of_locked txnId resource mode gran addr _ _ txn existing
            hget hfind
          by_cases hown : existing.holder = txnId ∧ mode.toNat ≤ existing.mode.toNat
          · rw [if_pos hown] at hlocks
            rw [hlocks] at hsys
            cases hsys
            exact hsame _ hcount
          · rw [if_neg hown] at hlocks
            by_cases hup : existing.holder = txnId ∧ locksConflict existing.mode mode = false
            · rw [if_pos hup] at hlocks
              rw [hlocks] at hsys
              cases hsys
              have htags := b.sys.locks.entries.tags_upgrade resource mode
              have hlen := htags.length_eq
              rw [List.length_map, List.length_map] at hlen
              refine ⟨⟨fun t hregt => (LockTable.heldBy_perm htags t).trans (ht.exact.held t hregt),
                fun e he => ?_, ?_⟩, ht.wellFormed, ht.placed.upgrade resource mode, ht.idle⟩
              · obtain ⟨e', he', htag⟩ := List.mem_map.mp
                  (htags.mem_iff.mp (List.mem_map_of_mem (f := LockEntry.tag) he))
                have hholder : e'.holder = e.holder := congrArg Prod.snd htag
                rw [← hholder]
                exact ht.exact.owners e' he'
              · dsimp only
                rw [hcount, hlen, htotal]
                exact Int.add_zero _
            · rw [if_neg hup] at hlocks
              have hconflict : locksConflict existing.mode mode = true := by
                rcases hsafe with hmine | hconflict
                · by_contra hnot
                  exact hup ⟨hmine, Bool.eq_false_of_not_eq_true hnot⟩
                · exact hconflict
              rw [if_pos hconflict] at hlocks
              rw [hlocks] at hsys
              cases hsys
              exact hsame _ hcount

theorem Tidy.release (ht : Tidy b) (hfits : b.Fits (.release txnId resource))
    (hstep : b.step (.release txnId resource) = some after) : Tidy after := by
  obtain ⟨sys, hsys, rfl⟩ := Option.map_eq_some_iff.mp hstep
  have hnot : b.sys.locks.entries.holds txnId resource = false := hfits
  have hlocks : b.sys.locks.releaseLock txnId resource = (-1, b.sys.locks) := by
    rw [LockTable.holds] at hnot
    rw [LockManager.releaseLock, hnot, if_neg Bool.false_ne_true]
  have hcount : b.sys.counted (.release txnId resource) = 0 := by
    rw [LockSystem.counted, hnot, if_neg Bool.false_ne_true]
  rw [LockSystem.step, hlocks] at hsys
  cases hsys
  refine ⟨⟨ht.exact.held, ht.exact.owners, ?_⟩, ht.wellFormed, ht.placed, ht.idle⟩
  dsimp only
  rw [hcount]
  exact (Int.add_zero _).trans ht.exact.total

theorem Tidy.step (ht : Tidy b) {a : LockAction} (hfits : b.Fits a)
    (hstep : b.step a = some after) : Tidy after := by
  cases a with
  | mvcc a => exact ht.mvcc hstep
  | acquire txnId resource mode gran addr => exact ht.acquire hfits hstep
  | release txnId resource => exact ht.release hfits hstep

/-- A step that memory does not allow changes nothing in the books. -/
theorem LockBook.fits_of_step_eq_none {a : LockAction} (hstep : b.step a = none) : b.Fits a := by
  cases a with
  | mvcc a => trivial
  | acquire txnId resource mode gran addr =>
      intro hfree
      rw [LockBook.step, LockSystem.step, hfree, Option.isSome_none,
        if_neg Bool.false_ne_true] at hstep
      cases hstep
  | release txnId resource => cases hstep

/-- Books that are still exact were not touched in one of the two wrong ways. -/
theorem Tidy.fits_of_exact (ht : Tidy b) {a : LockAction} (hstep : b.step a = some after)
    (hexact : Exact after) : b.Fits a := by
  obtain ⟨sys, hsys, rfl⟩ := Option.map_eq_some_iff.mp hstep
  cases a with
  | mvcc a => trivial
  | acquire txnId resource mode gran addr =>
      intro hfree hreg existing hfind
      by_contra hbad
      obtain ⟨hother, hnoconflict⟩ := not_or.mp hbad
      obtain ⟨txn, hget⟩ := Option.isSome_iff_exists.mp hreg
      have hcount : b.sys.counted (.acquire txnId resource mode gran addr) = 0 := by
        rw [LockSystem.counted, if_neg]
        intro h
        rw [hfind] at h
        exact nomatch h.2
      have hfind' : b.sys.locks.entries.findLockEntry resource = some existing := hfind
      have hlocks : b.sys.locks.acquireLock b.sys.system.manager txnId resource mode gran addr =
          (0,
            { entries := b.sys.locks.entries.modify resource fun chain => chain ++
                [{ addr := addr, resourceId := resource, granularity := gran, mode := mode,
                   holder := txnId }]
              heldLocks := Function.update b.sys.locks.heldLocks txnId
                (b.sys.locks.heldLocks txnId ++ [addr]) }) := by
        rw [acquireLock_of_locked hget hfind', if_neg fun h => hother h.1,
          if_neg fun h => hother h.1, if_neg hnoconflict]
      rw [LockSystem.step, hfree, Option.isSome_none, if_neg Bool.false_ne_true, hlocks] at hsys
      cases hsys
      have hall := @LockTable.all_modify_cons b.sys.locks.entries resource
        (fun chain => chain ++
          [{ addr := addr, resourceId := resource, granularity := gran, mode := mode,
             holder := txnId }]) _ _ (List.perm_append_singleton _ _) rfl
      have htotal := hexact.total
      have hbefore := ht.exact.total
      dsimp only at htotal
      rw [hcount, hall.length_eq, List.length_cons] at htotal
      omega
  | release txnId resource =>
      by_contra hbad
      have hholds : b.sys.locks.entries.holds txnId resource = true :=
        Bool.eq_true_of_not_eq_false hbad
      obtain ⟨e, rfl, he, hall⟩ := LockTable.all_release hholds
      have hreg := ht.exact.owners e he
      have hlocks : b.sys.locks.releaseLock e.holder resource =
          (0, { b.sys.locks with
            entries := b.sys.locks.entries.modify resource fun chain =>
              chain.eraseP fun e' => e'.resourceId = resource && e'.holder = e.holder }) := by
        rw [LockTable.holds] at hholds
        rw [LockManager.releaseLock, hholds, if_pos rfl]
      rw [LockSystem.step, hlocks] at hsys
      cases hsys
      have hheld := (hexact.held e.holder hreg).length_eq
      have hbefore := (ht.exact.held e.holder hreg).length_eq
      have hcons := (LockTable.heldBy_cons hall e.holder).length_eq
      rw [if_pos rfl, List.length_cons] at hcons
      dsimp only at hheld
      omega

end Steps

/-! ## Runs -/

theorem tidy_init : Tidy LockBook.init where
  exact :=
    { held := fun txnId hreg => by
        obtain ⟨txn, hmem, -⟩ := registered_iff.mp hreg
        cases List.eq_of_mem_replicate hmem
      owners := fun e he => by
        obtain ⟨i, hi⟩ := LockTable.mem_all.mp he
        cases hi
      total := by
        have hall : LockTable.all (fun _ => []) = [] := by
          rw [List.eq_nil_iff_forall_not_mem]
          intro e he
          obtain ⟨i, hi⟩ := LockTable.mem_all.mp he
          cases hi
        change (0 : Int) = ((LockTable.all fun _ => []).length : Int)
        rw [hall]
        rfl }
  wellFormed := wellFormed_init
  placed :=
    { addrs := by
        have hall : LockTable.all (fun _ => []) = [] := by
          rw [List.eq_nil_iff_forall_not_mem]
          intro e he
          obtain ⟨i, hi⟩ := LockTable.mem_all.mp he
          cases hi
        change ((LockTable.all fun _ => []).map LockEntry.addr).Nodup
        rw [hall]
        exact List.nodup_nil
      slots := fun i e he => nomatch he }
  idle _ _ := rfl

theorem Tidy.kept_iff {b : LockBook} (ht : Tidy b) (actions : List LockAction) :
    BooksKept b actions ↔ StepsFit LockBook.step LockBook.Fits b actions := by
  induction actions generalizing b with
  | nil => exact ⟨fun _ => trivial, fun _ => ht.exact⟩
  | cons a actions ih =>
      constructor
      · rintro ⟨-, -, hrest⟩
        have hfits : b.Fits a := by
          cases hstep : b.step a with
          | none => exact LockBook.fits_of_step_eq_none hstep
          | some after =>
              have hkept := hrest after hstep
              have hexact : Exact after := by
                cases actions with
                | nil => exact hkept
                | cons a' actions => exact hkept.1
              exact ht.fits_of_exact hstep hexact
        exact ⟨hfits, fun after hafter => (ih (ht.step hfits hafter)).mp (hrest after hafter)⟩
      · rintro ⟨hfits, hrest⟩
        exact ⟨ht.exact, ht.endsClean a, fun after hafter =>
          (ih (ht.step hfits hafter)).mpr (hrest after hafter)⟩

/-- Kept books are exact in the state a run ends in. -/
theorem BooksKept.exact {b after : LockBook} {actions : List LockAction}
    (hkept : BooksKept b actions) (hrun : actions.foldlM LockBook.step b = some after) :
    Exact after := by
  induction actions generalizing b with
  | nil =>
      cases hrun
      exact hkept
  | cons a actions ih =>
      rw [List.foldlM_cons] at hrun
      obtain ⟨next, hnext, hrest⟩ := Option.bind_eq_some_iff.mp hrun
      exact ih (hkept.2.2 next hnext) hrest

/-- The books of a run are exact exactly if no lock was granted behind one of another transaction
and none was given back before its transaction ended. -/
theorem booksKept_iff (actions : List LockAction) :
    BooksKept LockBook.init actions ↔
      StepsFit LockBook.step LockBook.Fits LockBook.init actions :=
  tidy_init.kept_iff actions

/-- Two readers of one row. -/
def twoReaders : List LockAction :=
  (beginTransaction .readCommitted 1 ++ beginTransaction .readCommitted 2).map LockAction.mvcc ++
    [.acquire 1 (CStr.lit "t.1") .shared .row 1, .acquire 2 (CStr.lit "t.1") .shared .row 2]

/-- The second one's entry is not counted. -/
theorem second_reader_is_not_counted : ¬ BooksKept LockBook.init twoReaders := by
  intro hkept
  have hrun : (twoReaders.foldlM LockBook.step LockBook.init).any
      (fun b => b.totalLocks ≠ (b.sys.locks.entries.all.length : Int)) = true := by
    decide +kernel
  obtain ⟨after, hafter, hdiff⟩ := (Option.any_eq_true _ _).mp hrun
  exact of_decide_eq_true hdiff (hkept.exact hafter).total

end Mvcc
end InventixDB
