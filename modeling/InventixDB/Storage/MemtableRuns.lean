import InventixDB.Storage.LsmRefinement
import Mathlib.Data.List.Induction

/-!
# MemtableRuns — the memtable after any calls

Rotations are chosen by comparing the new key with the key of the child, not by the balance of the
child.  The two agree, since the child is deeper on the side the key went to.
-/

namespace InventixDB
namespace Storage

open Lib

/-! ## Calls -/

inductive MemtableCall
  | put (key : CStr) (value : Blob)
  | delete (key : CStr)
  deriving DecidableEq

namespace MemtableCall

def key : MemtableCall → CStr
  | put key _ => key
  | delete key => key

/-- What the call leaves in the memtable. -/
def entry : MemtableCall → LSMEntry
  | put _ value => { value, deleted := false }
  | delete _ => tombstone

def run (mt : MemTable) : MemtableCall → MemTable
  | put key value => memtablePut mt key value
  | delete key => memtableDelete mt key

variable {mt : MemTable}

theorem root_run (mt : MemTable) (call : MemtableCall) :
    (call.run mt).root = mt.root.insert call.key call.entry := by
  cases call with
  | put key value => rfl
  | delete key => rfl

theorem get_run (h : mt.Sorted) (call : MemtableCall) (k : CStr) :
    memtableGet (call.run mt) k = if k = call.key then some call.entry else memtableGet mt k := by
  cases call with
  | put key value => exact h.get_put key k value
  | delete key => exact h.get_delete key k

end MemtableCall

def memtableRun (mt : MemTable) (calls : List MemtableCall) : MemTable :=
  calls.foldl MemtableCall.run mt

/-- What the last call for the key has left. -/
def lastEntry (calls : List MemtableCall) (key : CStr) : Option LSMEntry :=
  (calls.findRev? fun call => call.key = key).map MemtableCall.entry

/-! ## The search tree -/

structure MemTable.SearchTree (mt : MemTable) : Prop where
  sorted : mt.Sorted
  balanced : mt.root.Balanced

theorem MemTable.SearchTree.create : memtableCreate.SearchTree :=
  ⟨List.Pairwise.nil, trivial⟩

theorem MemTable.SearchTree.call {mt : MemTable} (h : mt.SearchTree) (call : MemtableCall) :
    (call.run mt).SearchTree := by
  refine ⟨?_, ?_⟩
  · cases call with
    | put key value => exact h.sorted.put key value
    | delete key => exact h.sorted.delete key
  · rw [call.root_run]
    exact h.balanced.insert call.key call.entry

theorem MemTable.SearchTree.run {mt : MemTable} (h : mt.SearchTree) (calls : List MemtableCall) :
    (memtableRun mt calls).SearchTree := by
  induction calls generalizing mt with
  | nil => exact h
  | cons call calls ih => exact ih (h.call call)

/-- The calls are looked at from the last one. -/
theorem memtableGet_run (calls : List MemtableCall) (key : CStr) :
    memtableGet (memtableRun memtableCreate calls) key = lastEntry calls key := by
  induction calls using List.reverseRecOn with
  | nil => rfl
  | append_singleton calls call ih =>
      have hsorted := (MemTable.SearchTree.create.run calls).sorted
      have hget := MemtableCall.get_run hsorted call key
      rw [memtableRun, List.foldl_append, List.foldl_cons, List.foldl_nil]
      rw [memtableRun] at hget ih
      rw [hget, ih, lastEntry, lastEntry]
      by_cases hkey : key = call.key
      · rw [if_pos hkey]
        simp [hkey]
      · rw [if_neg hkey]
        simp [Ne.symm hkey]

theorem memtable_is_balanced_search_tree (calls : List MemtableCall) :
    let mt := memtableRun memtableCreate calls
    (mt.root.toList.map Prod.fst).Pairwise (fun a b => compare a b = .lt) ∧
      mt.root.Balanced ∧ ∀ key, memtableGet mt key = lastEntry calls key := by
  have htree := MemTable.SearchTree.create.run calls
  exact ⟨List.pairwise_map.mpr htree.sorted, htree.balanced, memtableGet_run calls⟩

end Storage
end InventixDB
