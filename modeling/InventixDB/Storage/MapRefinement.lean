import InventixDB.Storage.KVStore

/-!
# MapRefinement — the hash store and the finite map it stands for

`expected` is the map that a sequence of calls describes.  The store follows it exactly as long
as no `kv_delete` empties a slot on another key's probe path; the first one that does makes
that other key unreachable.
-/

namespace InventixDB
namespace Storage

open Lib.OpenAddressing

variable {n : Nat} [NeZero n]

/-! ## What each operation does to the entries -/

omit [NeZero n] in
@[simp]
theorem entries_kvSnapshotInternal (store : KVStore n) :
    (kvSnapshotInternal store).entries = store.entries := by
  unfold kvSnapshotInternal
  split <;> rfl

omit [NeZero n] in
@[simp]
theorem entries_kvAppendLog (store : KVStore n) (record : LogRecord) :
    (kvAppendLog store record).entries = store.entries := by
  unfold kvAppendLog
  split
  · dsimp only
    split
    · rw [entries_kvSnapshotInternal]
    · rfl
  · rfl

@[simp]
theorem entries_kvPut (store : KVStore n) (key : CStr) (val : Value) :
    (kvPut store key val).entries = insert CStr.slot store.entries key val := by
  simp [kvPut, kvPutInternal]

@[simp]
theorem entries_kvDelete (store : KVStore n) (key : CStr) :
    (kvDelete store key).entries = erase CStr.slot store.entries key := by
  unfold kvDelete erase
  cases probe CStr.slot store.entries key <;> simp

omit [NeZero n] in
/-- `kv_iterate` folds the callback over the entries in slot order. -/
theorem kvIterate_eq_foldl {σ : Type*} (store : KVStore n) (callback : CStr → Value → σ → σ)
    (ctx : σ) :
    kvIterate store callback ctx =
      (toList store.entries).foldl (fun ctx e => callback e.1 e.2 ctx) ctx := by
  unfold kvIterate toList
  induction List.finRange n generalizing ctx with
  | nil => rfl
  | cons i is ih =>
      cases hi : store.entries i with
      | none => simp [hi, ih]
      | some e => simp [hi, ih]

/-! ## Sequences of calls -/

/-- A call on the store. -/
inductive KVCall
  | put (key : CStr) (val : Value)
  | delete (key : CStr)
  | get (key : CStr)
  | snapshot
  deriving DecidableEq

def KVCall.exec (store : KVStore n) : KVCall → KVStore n
  | .put key val => kvPut store key val
  | .delete key => kvDelete store key
  | .get _ => store
  | .snapshot => kvSnapshot store

def runCalls (store : KVStore n) (calls : List KVCall) : KVStore n :=
  calls.foldl KVCall.exec store

@[simp]
theorem runCalls_nil (store : KVStore n) : runCalls store [] = store := rfl

@[simp]
theorem runCalls_cons (store : KVStore n) (call : KVCall) (calls : List KVCall) :
    runCalls store (call :: calls) = runCalls (call.exec store) calls := rfl

theorem runCalls_append (store : KVStore n) (calls calls' : List KVCall) :
    runCalls store (calls ++ calls') = runCalls (runCalls store calls) calls' := by
  exact List.foldl_append

/-- The change of the entries a call asks for. -/
def KVCall.op? : KVCall → Option (Op CStr Value)
  | .put key val => some (.put key val)
  | .delete key => some (.del key)
  | .get _ => none
  | .snapshot => none

/-- The changes a sequence of calls asks for. -/
def opsOf (calls : List KVCall) : List (Op CStr Value) :=
  calls.filterMap KVCall.op?

theorem opsOf_append (calls calls' : List KVCall) :
    opsOf (calls ++ calls') = opsOf calls ++ opsOf calls' := by
  exact List.filterMap_append

theorem entries_exec (store : KVStore n) (call : KVCall) :
    (call.exec store).entries = applyOps CStr.slot store.entries (opsOf [call]) := by
  cases call with
  | put key val => exact entries_kvPut store key val
  | delete key => exact entries_kvDelete store key
  | get key => rfl
  | snapshot => exact entries_kvSnapshotInternal store

theorem entries_runCalls (store : KVStore n) (calls : List KVCall) :
    (runCalls store calls).entries = applyOps CStr.slot store.entries (opsOf calls) := by
  induction calls generalizing store with
  | nil => rfl
  | cons call calls ih =>
      have hsplit : opsOf (call :: calls) = opsOf [call] ++ opsOf calls :=
        opsOf_append [call] calls
      rw [runCalls_cons, ih, entries_exec, hsplit, applyOps_append]

/-! ## The map the calls describe -/

/-- The last put or delete of `key`, if any. -/
def lastAbout (calls : List KVCall) (key : CStr) : Option KVCall :=
  calls.reverse.find? fun call =>
    match call with
    | .put k _ => k = key
    | .delete k => k = key
    | _ => false

/-- The value of the last put of `key` that no delete of `key` follows. -/
def expected (calls : List KVCall) (key : CStr) : Option Value :=
  match lastAbout calls key with
  | some (.put _ val) => some val
  | _ => none

/-- The keys ever put. -/
def putKeys (calls : List KVCall) : Finset CStr :=
  (calls.filterMap fun call =>
    match call with
    | .put key _ => some key
    | _ => none).toFinset

/-- The entries `kv_iterate` passes to its callback, in order. -/
def visited (store : KVStore n) : List (CStr × Value) :=
  kvIterate store (fun key val seen => seen ++ [(key, val)]) []

omit [NeZero n] in
theorem visited_eq (store : KVStore n) : visited store = toList store.entries := by
  have hsnoc : ∀ l seen : List (CStr × Value),
      l.foldl (fun seen e => seen ++ [(e.1, e.2)]) seen = seen ++ l := by
    intro l
    induction l with
    | nil => simp
    | cons e l ih => simp [ih]
  unfold visited
  rw [kvIterate_eq_foldl, hsnoc, List.nil_append]

/-- The store answers gets and iterations as the map `m` does. -/
structure RefinesMap (store : KVStore n) (m : CStr → Option Value) : Prop where
  get : ∀ key, kvGet store key = m key
  iterate_once : ((visited store).map Prod.fst).Nodup
  iterate_live : ∀ key val, (key, val) ∈ visited store ↔ m key = some val

theorem expected_concat (calls : List KVCall) (call : KVCall) :
    expected (calls ++ [call]) = mapOps (expected calls) (opsOf [call]) := by
  funext key
  cases call with
  | put k val =>
      by_cases hk : k = key
      · subst hk
        simp [expected, lastAbout, opsOf, KVCall.op?, Op.onMap, Op.key, Op.result]
      · have hk' : key ≠ k := fun h => hk h.symm
        simp [expected, lastAbout, opsOf, KVCall.op?, Op.onMap, Op.key, hk, hk']
  | delete k =>
      by_cases hk : k = key
      · subst hk
        simp [expected, lastAbout, opsOf, KVCall.op?, Op.onMap, Op.key, Op.result]
      · have hk' : key ≠ k := fun h => hk h.symm
        simp [expected, lastAbout, opsOf, KVCall.op?, Op.onMap, Op.key, hk, hk']
  | get k =>
      have hnone : opsOf [KVCall.get k] = [] := rfl
      simp [expected, lastAbout, hnone]
  | snapshot =>
      have hnone : opsOf [KVCall.snapshot] = [] := rfl
      simp [expected, lastAbout, hnone]

theorem mem_putKeys_of_expected {calls : List KVCall} {key : CStr} {val : Value}
    (hval : expected calls key = some val) : key ∈ putKeys calls := by
  unfold expected at hval
  split at hval
  · next k v hlast =>
      have hmem := List.mem_of_find?_eq_some hlast
      have hkey := List.find?_some hlast
      simp only [decide_eq_true_eq] at hkey
      subst hkey
      unfold putKeys
      rw [List.mem_toFinset, List.mem_filterMap]
      exact ⟨.put k v, List.mem_reverse.mp hmem, rfl⟩
  · cases hval

theorem putKeys_mono {calls p : List KVCall} (hp : p <+: calls) :
    (putKeys p).card ≤ (putKeys calls).card := by
  refine Finset.card_le_card ?_
  intro key hkey
  unfold putKeys at hkey ⊢
  rw [List.mem_toFinset, List.mem_filterMap] at hkey ⊢
  obtain ⟨call, hmem, hput⟩ := hkey
  exact ⟨call, hp.subset hmem, hput⟩

/-! ## The refinement -/

/-- No delete of the sequence empties a slot on another key's probe path. -/
def NoDeleteCuts (store : KVStore n) (calls : List KVCall) : Prop :=
  ∀ p key, p ++ [.delete key] <+: calls → ¬ CutsChain CStr.slot (runCalls store p).entries key

/-- The entries are intact and hold the map the calls describe. -/
structure Refined (store : KVStore n) (calls : List KVCall) : Prop where
  intact : Intact CStr.slot store.entries
  lookup : lookup CStr.slot store.entries = expected calls

theorem Refined.refinesMap {store : KVStore n} {calls : List KVCall}
    (hr : Refined store calls) : RefinesMap store (expected calls) where
  get := fun key => congrFun hr.lookup key
  iterate_once := by
    rw [visited_eq]
    exact hr.intact.nodup_keys
  iterate_live := by
    intro key val
    rw [visited_eq, hr.intact.mem_toList_iff, hr.lookup]

/-- A table holding fewer keys than it has slots has room for every key. -/
theorem Refined.not_full {store : KVStore n} {calls : List KVCall}
    (hr : Refined store calls) (hroom : (putKeys calls).card < n) (key : CStr) :
    probe CStr.slot store.entries key ≠ .full := by
  intro hfull
  have hcard := hr.intact.card_of_full hfull (putKeys calls) (by
    intro k v hk
    rw [hr.lookup] at hk
    exact mem_putKeys_of_expected hk)
  omega

/-- One call keeps the refinement, unless it is a delete that cuts a chain. -/
theorem Refined.exec {store : KVStore n} {calls : List KVCall} (hr : Refined store calls)
    (hroom : (putKeys calls).card < n) (call : KVCall)
    (hcut : ∀ key, call = .delete key → ¬ CutsChain CStr.slot store.entries key) :
    Refined (call.exec store) (calls ++ [call]) := by
  have hsafe : SafeOps CStr.slot store.entries (opsOf [call]) := by
    cases call with
    | put key val => exact ⟨hr.not_full hroom key, trivial⟩
    | delete key => exact ⟨hcut key rfl, trivial⟩
    | get key => exact trivial
    | snapshot => exact trivial
  refine ⟨?_, ?_⟩
  · rw [entries_exec]
    exact hsafe.intact_applyOps hr.intact
  · rw [entries_exec, hsafe.lookup_applyOps hr.intact, hr.lookup, expected_concat]

/-- A sequence without cutting deletes keeps the refinement to its end. -/
theorem Refined.runCalls {store : KVStore n} (hempty : store.entries = empty)
    {calls : List KVCall} (hroom : (putKeys calls).card < n) (hcuts : NoDeleteCuts store calls) :
    Refined (runCalls store calls) calls := by
  induction calls using List.reverseRecOn with
  | nil =>
      refine ⟨?_, ?_⟩
      · rw [runCalls_nil, hempty]
        exact intact_empty
      · funext key
        rw [runCalls_nil, hempty, lookup_empty]
        rfl
  | append_singleton p call ih =>
      have hpre : p <+: p ++ [call] := List.prefix_append p [call]
      have hroom' : (putKeys p).card < n := lt_of_le_of_lt (putKeys_mono hpre) hroom
      have hr := ih hroom' fun q key hq => hcuts q key (hq.trans hpre)
      rw [runCalls_append]
      refine hr.exec hroom' call ?_
      rintro key rfl
      exact hcuts p key (List.prefix_refl _)

/-- Two one-byte rows for concrete runs. -/
def rowA : Value where
  data := [65]
  type := .row

def rowB : Value where
  data := [66]
  type := .row

/-- The store follows its map through every prefix exactly when no delete cuts a chain. -/
theorem refinesMap_iff_noDeleteCuts (store : KVStore n) (hempty : store.entries = empty)
    (calls : List KVCall) (hroom : (putKeys calls).card < n) :
    (∀ p, p <+: calls → RefinesMap (runCalls store p) (expected p)) ↔
      NoDeleteCuts store calls := by
  constructor
  · intro hmap p key hp hcut
    -- Up to the first cutting delete the table is intact; that delete loses a live key.
    suffices hcuts : ∀ q, q <+: calls → NoDeleteCuts store q from
      hcuts (p ++ [.delete key]) hp p key (List.prefix_refl _) hcut
    intro q
    induction q using List.reverseRecOn with
    | nil =>
        intro _ q' key' hq'
        simp at hq'
    | append_singleton q call ih =>
        intro hq q' key' hq' hcut'
        have hqpre : q <+: calls := (List.prefix_append q [call]).trans hq
        have hcuts := ih hqpre
        rcases List.prefix_concat_iff.mp hq' with heq | hlt
        · obtain ⟨rfl, hcall⟩ := List.append_inj' heq rfl
          cases hcall
          have hroom' : (putKeys q').card < n := lt_of_le_of_lt (putKeys_mono hqpre) hroom
          have hr := Refined.runCalls hempty hroom' hcuts
          obtain ⟨k', w, hne, hlive, hlost⟩ := hr.intact.lost_of_cutsChain hcut'
          have hget := (hmap _ hq).get k'
          rw [kvGet, entries_runCalls, opsOf_append, applyOps_append, ← entries_runCalls] at hget
          have hdel : opsOf [KVCall.delete key'] = [.del key'] := rfl
          rw [expected_concat, hdel, ← hr.lookup] at hget
          rw [applyOps_cons, applyOps_nil, Op.apply, hlost, mapOps_cons, mapOps_nil, Op.onMap,
            Op.key, Function.update_of_ne hne, hlive] at hget
          cases hget
        · exact hcuts q' key' hlt hcut'
  · intro hcuts p hp
    have hroom' : (putKeys p).card < n := lt_of_le_of_lt (putKeys_mono hp) hroom
    exact (Refined.runCalls hempty hroom' fun q key hq => hcuts q key (hq.trans hp)).refinesMap

theorem refinesMap_iff_noDeleteCuts_reversed :
    (∀ p, p <+: [.put (CStr.lit "ab") rowA, .put (CStr.lit "bA") rowB, .delete (CStr.lit "bA")] →
      RefinesMap (runCalls defaultStore p) (expected p)) ↔
      NoDeleteCuts defaultStore
        [.put (CStr.lit "ab") rowA, .put (CStr.lit "bA") rowB, .delete (CStr.lit "bA")] :=
  refinesMap_iff_noDeleteCuts defaultStore rfl _ (by decide)

/-- `ab` and `bA` have one hash: deleting the first key put makes the second unreachable. -/
theorem kvDelete_loses_colliding_key :
    (putKeys [.put (CStr.lit "ab") rowA, .put (CStr.lit "bA") rowB,
        .delete (CStr.lit "ab")]).card < 1024 ∧
      ¬ ∀ p, p <+: [.put (CStr.lit "ab") rowA, .put (CStr.lit "bA") rowB,
        .delete (CStr.lit "ab")] → RefinesMap (runCalls defaultStore p) (expected p) := by
  refine ⟨by decide, ?_⟩
  intro hmap
  have hget := (hmap _ (List.prefix_refl _)).get (CStr.lit "bA")
  have hlost : kvGet (runCalls defaultStore [.put (CStr.lit "ab") rowA,
      .put (CStr.lit "bA") rowB, .delete (CStr.lit "ab")]) (CStr.lit "bA") = none := by decide
  rw [hlost] at hget
  revert hget
  decide

end Storage
end InventixDB
