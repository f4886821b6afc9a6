import InventixDB.Executor.QueryCache

/-!
# CacheMemory — the memory of the query cache

The cache adds up the memory of its entries, and evicts entries until a new one fits.  An entry
that gets another result keeps the memory of the old one, and a result that is larger than the
whole cache is waited for forever.
-/

namespace InventixDB
namespace Executor

open Lib Storage

/-- `query_cache_clear` -/
def queryCacheClear (cache : QueryCache) : QueryCache :=
  { cache with entries := [], totalMemory := 0 }

/-- The cache and the time. -/
structure TimedCache where
  cache : QueryCache
  now : Int
  deriving DecidableEq

inductive CacheUse
  | put (query : CStr) (result : CachedResult)
  | get (query : CStr)
  | invalidate (tableName : CStr)
  | clear
  | wait (seconds : Nat)

namespace TimedCache

open QueryCache

def start (maxMemory : UInt64) (now : Int) : TimedCache where
  cache := queryCacheInit maxMemory
  now := now

/-- A put that never returns has no result. -/
def step (t : TimedCache) : CacheUse → Option TimedCache
  | .put query result => (t.cache.put t.now query result).map fun cache => { t with cache := cache }
  | .get query => some { t with cache := (t.cache.get t.now query).2 }
  | .invalidate tableName => some { t with cache := t.cache.invalidate tableName }
  | .clear => some { t with cache := queryCacheClear t.cache }
  | .wait seconds => some { t with now := t.now + seconds }

def Returns (t : TimedCache) (use : CacheUse) : Prop :=
  (t.step use).isSome

end TimedCache

/-! ## The memory of the entries -/

def memoryOf (e : QueryCacheEntry) : Nat :=
  e.result.memoryUsed.toNat

def usedMemory (entries : List QueryCacheEntry) : Nat :=
  (entries.map memoryOf).sum

/-- The total is the memory of the entries, and within the bound. -/
structure QueryCache.Accounts (cache : QueryCache) : Prop where
  total : cache.totalMemory.toNat = usedMemory cache.entries
  bound : cache.totalMemory.toNat ≤ cache.maxMemory.toNat

/-- A result that replaces another has its size.  A new one is not larger than the cache, and the
sum of the sizes is less than `2^64`. -/
def TimedCache.MemoryFits (t : TimedCache) : CacheUse → Prop
  | .put query result =>
      match t.cache.entries.find? (QueryCache.hit query) with
      | some e => e.result.memoryUsed = result.memoryUsed
      | none => result.memoryUsed ≤ t.cache.maxMemory ∧
          t.cache.totalMemory.toNat + result.memoryUsed.toNat < 2 ^ 64
  | _ => True

@[simp]
theorem usedMemory_nil : usedMemory [] = 0 := rfl

@[simp]
theorem usedMemory_cons (e : QueryCacheEntry) (entries : List QueryCacheEntry) :
    usedMemory (e :: entries) = memoryOf e + usedMemory entries := by
  rw [usedMemory, List.map_cons, List.sum_cons, usedMemory]

theorem usedMemory_append (before behind : List QueryCacheEntry) :
    usedMemory (before ++ behind) = usedMemory before + usedMemory behind := by
  rw [usedMemory, List.map_append, List.sum_append, usedMemory, usedMemory]

theorem usedMemory_map {g : QueryCacheEntry → QueryCacheEntry}
    (hg : ∀ e, (g e).result = e.result) (entries : List QueryCacheEntry) :
    usedMemory (entries.map g) = usedMemory entries := by
  rw [usedMemory, List.map_map, usedMemory]
  have hmemory : ∀ e ∈ entries, (memoryOf ∘ g) e = memoryOf e := by
    intro e _
    rw [Function.comp, memoryOf, hg, memoryOf]
  exact congrArg List.sum (List.map_congr_left hmemory)

theorem usedMemory_eraseIdx {entries : List QueryCacheEntry} {i : Nat} {e : QueryCacheEntry}
    (hget : entries[i]? = some e) :
    usedMemory (entries.eraseIdx i) + memoryOf e = usedMemory entries := by
  induction entries generalizing i with
  | nil => cases hget
  | cons first rest ih =>
      cases i with
      | zero =>
          obtain rfl : first = e := by simpa using hget
          rw [List.eraseIdx_zero, List.tail_cons, usedMemory_cons]
          omega
      | succ i =>
          rw [List.getElem?_cons_succ] at hget
          rw [List.eraseIdx_cons_succ, usedMemory_cons, usedMemory_cons, ← ih hget]
          omega

/-- The first entry of a kind is changed. -/
theorem usedMemory_modify {entries : List QueryCacheEntry} {p : QueryCacheEntry → Bool}
    {e : QueryCacheEntry} (hfind : entries.find? p = some e)
    (g : QueryCacheEntry → QueryCacheEntry) :
    usedMemory (entries.modify (entries.findIdx p) g) + memoryOf e =
      usedMemory entries + memoryOf (g e) := by
  induction entries with
  | nil => cases hfind
  | cons first rest ih =>
      rw [List.find?_cons] at hfind
      rw [List.findIdx_cons]
      cases hfirst : p first with
      | true =>
          rw [hfirst] at hfind
          cases hfind
          simp only [cond_true, List.modify_zero_cons, usedMemory_cons]
          omega
      | false =>
          rw [hfirst] at hfind
          simp only [cond_false, List.modify_succ_cons, usedMemory_cons]
          have hrest := ih hfind
          omega

theorem usedMemory_getLoop (now : Int) (query : CStr) (entries : List QueryCacheEntry) :
    usedMemory (QueryCache.getLoop now query entries).2 = usedMemory entries := by
  induction entries with
  | nil => rfl
  | cons e entries ih =>
      unfold QueryCache.getLoop
      split
      · split
        · rfl
        · split
          · rfl
          · rw [usedMemory_cons, usedMemory_cons, ih]
      · rw [usedMemory_cons, usedMemory_cons, ih]

/-- Modulo `2^64` this is the sum of the `size_t` values. -/
theorem toNat_sum_memoryUsed (entries : List QueryCacheEntry) :
    (entries.map fun e : QueryCacheEntry => e.result.memoryUsed).sum.toNat =
      usedMemory entries % 2 ^ 64 := by
  induction entries with
  | nil => rfl
  | cons e entries ih =>
      rw [List.map_cons, List.sum_cons, UInt64.toNat_add, ih, usedMemory_cons, memoryOf]
      omega

/-! ## Eviction -/

namespace QueryCache

variable {cache after : QueryCache}

theorem Accounts.accounted (hcache : cache.Accounts) : CacheRun.Accounted cache := by
  refine UInt64.toNat_inj.mp ?_
  rw [toNat_sum_memoryUsed, ← hcache.total]
  exact (Nat.mod_eq_of_lt cache.totalMemory.toNat_lt).symm

theorem Accounts.evictOldestEntry (hcache : cache.Accounts) : cache.evictOldestEntry.Accounts := by
  by_cases hne : cache.entries = []
  · rw [QueryCache.evictOldestEntry, hne]
    exact hcache
  · obtain ⟨i, e, hget, hevict⟩ := evictOldestEntry_eq hne
    have hsum := usedMemory_eraseIdx hget
    have htotal := hcache.total
    have hle : e.result.memoryUsed ≤ cache.totalMemory := by
      rw [UInt64.le_iff_toNat_le, htotal]
      unfold memoryOf at hsum
      omega
    rw [hevict]
    unfold memoryOf at hsum
    refine ⟨?_, ?_⟩
    · dsimp only
      rw [UInt64.toNat_sub_of_le _ _ hle, htotal]
      omega
    · have hbound := hcache.bound
      dsimp only
      rw [UInt64.toNat_sub_of_le _ _ hle]
      omega

theorem totalMemory_evictOldestEntry_le (hcache : cache.Accounts) :
    cache.evictOldestEntry.totalMemory.toNat ≤ cache.totalMemory.toNat := by
  rw [hcache.evictOldestEntry.total, hcache.total]
  by_cases hne : cache.entries = []
  · rw [QueryCache.evictOldestEntry, hne, hne]
  · obtain ⟨i, e, hget, hevict⟩ := evictOldestEntry_eq hne
    rw [hevict, ← usedMemory_eraseIdx hget]
    exact Nat.le_add_right _ _

/-- Eviction keeps the account, and ends with room. -/
theorem Accounts.makeRoom (hcache : cache.Accounts) {memoryUsed : UInt64}
    (hroom : cache.makeRoom memoryUsed = some after) :
    after.Accounts ∧ after.maxMemory = cache.maxMemory ∧
      after.totalMemory.toNat ≤ cache.totalMemory.toNat ∧ after.hasRoom memoryUsed = true := by
  obtain ⟨⟨haccounts, hmax, hle⟩, hdone⟩ := whileLoop_of_invariant
    (P := fun c => c.Accounts ∧ c.maxMemory = cache.maxMemory ∧
      c.totalMemory.toNat ≤ cache.totalMemory.toNat)
    (fun c next hc _ hnext => by
      cases hnext
      refine ⟨hc.1.evictOldestEntry, ?_, (totalMemory_evictOldestEntry_le hc.1).trans hc.2.2⟩
      rw [← hc.2.1]
      unfold QueryCache.evictOldestEntry
      split <;> rfl)
    ⟨hcache, rfl, Nat.le_refl _⟩ hroom
  exact ⟨haccounts, hmax, hle, by simpa using hdone⟩

end QueryCache

/-! ## Single calls -/

namespace TimedCache

open QueryCache

variable {t after : TimedCache}

theorem any_hit {query : CStr} {entries : List QueryCacheEntry} :
    entries.any (hit query) = (entries.find? (hit query)).isSome := by
  rw [List.isSome_find?]

/-- A replaced result. -/
theorem put_of_hit {query : CStr} {e : QueryCacheEntry}
    (hfind : t.cache.entries.find? (hit query) = some e) (result : CachedResult) :
    ∃ cache, t.cache.put t.now query result = some cache ∧
      cache.totalMemory = t.cache.totalMemory ∧ cache.maxMemory = t.cache.maxMemory ∧
      usedMemory cache.entries + memoryOf e =
        usedMemory t.cache.entries + result.memoryUsed.toNat := by
  refine ⟨{ t.cache with
    entries := t.cache.entries.modify (t.cache.entries.findIdx (hit query)) fun e =>
      { e with result := result, createdAt := t.now } }, ?_, rfl, rfl, usedMemory_modify hfind _⟩
  rw [QueryCache.put, if_pos (by rw [any_hit, hfind]; rfl)]

/-- A new result. -/
theorem put_of_no_hit {query : CStr} (hfind : t.cache.entries.find? (hit query) = none)
    {result : CachedResult} {cache : QueryCache}
    (hput : t.cache.put t.now query result = some cache) :
    ∃ room, t.cache.makeRoom result.memoryUsed = some room ∧
      cache.totalMemory = room.totalMemory + result.memoryUsed ∧
      cache.maxMemory = room.maxMemory ∧
      usedMemory cache.entries = usedMemory room.entries + result.memoryUsed.toNat := by
  rw [QueryCache.put, if_neg (by rw [any_hit, hfind]; decide)] at hput
  obtain ⟨room, hroom, rfl⟩ := Option.map_eq_some_iff.mp hput
  refine ⟨room, hroom, rfl, rfl, ?_⟩
  rw [usedMemory_append, usedMemory_cons, usedMemory_nil, memoryOf]
  rfl

theorem step_of_memoryFits (ht : t.cache.Accounts) {use : CacheUse} (hfits : t.MemoryFits use) :
    ∃ after, t.step use = some after ∧ after.cache.Accounts := by
  cases use with
  | put query result =>
      unfold MemoryFits at hfits
      cases hfind : t.cache.entries.find? (hit query) with
      | some e =>
          simp only [hfind] at hfits
          obtain ⟨cache, hput, htotal, hmax, hused⟩ := put_of_hit hfind result
          refine ⟨{ t with cache := cache }, by rw [step, hput]; rfl, ?_, ?_⟩
          · rw [memoryOf, hfits] at hused
            rw [htotal, ht.total]
            exact (Nat.add_right_cancel hused).symm
          · rw [htotal, hmax]
            exact ht.bound
      | none =>
          simp only [hfind] at hfits
          have hsome : (t.cache.makeRoom result.memoryUsed).isSome = true :=
            makeRoom_isSome (.inr ⟨ht.accounted, hfits.1⟩)
          obtain ⟨room, hroom⟩ := Option.isSome_iff_exists.mp hsome
          have hput : (t.cache.put t.now query result).isSome = true := by
            rw [QueryCache.put, if_neg (by rw [any_hit, hfind]; decide), hroom]
            rfl
          obtain ⟨cache, hput⟩ := Option.isSome_iff_exists.mp hput
          obtain ⟨room', hroom', htotal, hmax, hused⟩ := put_of_no_hit hfind hput
          cases hroom.symm.trans hroom'
          obtain ⟨haccounts, _, hle, hhas⟩ := ht.makeRoom hroom
          rw [hasRoom, Bool.and_eq_true, decide_eq_true_eq, decide_eq_true_eq,
            UInt64.le_iff_toNat_le] at hhas
          -- the sum of the sizes does not wrap
          have hsum : (room.totalMemory + result.memoryUsed).toNat =
              room.totalMemory.toNat + result.memoryUsed.toNat := by
            rw [UInt64.toNat_add]
            omega
          refine ⟨{ t with cache := cache }, by rw [step, hput]; rfl, ?_, ?_⟩
          · rw [htotal, hsum, hused, haccounts.total]
          · rw [htotal, hmax]
            exact hhas.2
  | get query =>
      refine ⟨_, rfl, ?_, ht.bound⟩
      rw [QueryCache.get, usedMemory_getLoop]
      exact ht.total
  | invalidate tableName =>
      refine ⟨_, rfl, ?_, ht.bound⟩
      rw [invalidate, usedMemory_map fun e => by split <;> rfl]
      exact ht.total
  | clear => exact ⟨_, rfl, rfl, Nat.zero_le _⟩
  | wait seconds => exact ⟨_, rfl, ht⟩

/-- In a cache of less than half the address space no other call is accounted for. -/
theorem memoryFits_of_step (ht : t.cache.Accounts) (hsmall : t.cache.maxMemory.toNat < 2 ^ 63)
    {use : CacheUse} (hstep : t.step use = some after) (hafter : after.cache.Accounts) :
    t.MemoryFits use := by
  cases use with
  | put query result =>
      obtain ⟨cache, hput, rfl⟩ := Option.map_eq_some_iff.mp hstep
      unfold MemoryFits
      cases hfind : t.cache.entries.find? (hit query) with
      | some e =>
          obtain ⟨cache', hput', htotal, _, hused⟩ := put_of_hit hfind result
          cases hput.symm.trans hput'
          have hsame := hafter.total
          dsimp only at hsame
          rw [htotal, ht.total] at hsame
          rw [← hsame, memoryOf] at hused
          dsimp only
          rw [hfind]
          exact UInt64.toNat_inj.mp (Nat.add_left_cancel hused)
      | none =>
          obtain ⟨room, hroom, _, hmax, hused⟩ := put_of_no_hit hfind hput
          obtain ⟨_, hkept, _⟩ := ht.makeRoom hroom
          have hbound := hafter.bound
          rw [hafter.total] at hbound
          dsimp only at hbound
          rw [hused, hmax, hkept] at hbound
          have htotal := ht.bound
          dsimp only
          rw [hfind]
          refine ⟨UInt64.le_iff_toNat_le.mpr ?_, ?_⟩ <;> omega
  | get query => trivial
  | invalidate tableName => trivial
  | clear => trivial
  | wait seconds => trivial

theorem maxMemory_step {use : CacheUse} (hstep : t.step use = some after) :
    after.cache.maxMemory = t.cache.maxMemory := by
  cases use with
  | put query result =>
      obtain ⟨cache, hput, rfl⟩ := Option.map_eq_some_iff.mp hstep
      unfold QueryCache.put at hput
      split at hput
      · cases hput
        rfl
      · obtain ⟨room, hroom, rfl⟩ := Option.map_eq_some_iff.mp hput
        exact (makeRoom_eq_some hroom).2
  | get query => cases hstep; rfl
  | invalidate tableName => cases hstep; rfl
  | clear => cases hstep; rfl
  | wait seconds => cases hstep; rfl

/-! ## Whole runs -/

theorem accounts_start (maxMemory : UInt64) (now : Int) : (start maxMemory now).cache.Accounts :=
  ⟨rfl, Nat.zero_le _⟩

/-- In every state of the run the memory is accounted for, and every call of it returns. -/
def StaysAccounted (t : TimedCache) (uses : List CacheUse) : Prop :=
  Stays step (fun t => t.cache.Accounts) t uses ∧ StepsFit step Returns t uses

theorem staysAccounted_of_memoryFits {uses : List CacheUse} (ht : t.cache.Accounts)
    (hfits : StepsFit step MemoryFits t uses) : t.StaysAccounted uses := by
  have hkeeps : ∀ (t : TimedCache) (use : CacheUse) (after : TimedCache), t.cache.Accounts →
      t.MemoryFits use → t.step use = some after → after.cache.Accounts := by
    intro t use after ht hfits hstep
    obtain ⟨after', hstep', hafter⟩ := step_of_memoryFits ht hfits
    cases hstep.symm.trans hstep'
    exact hafter
  have hreturns : ∀ (t : TimedCache) (use : CacheUse), t.cache.Accounts → t.MemoryFits use →
      t.Returns use := by
    intro t use ht hfits
    obtain ⟨after, hstep, _⟩ := step_of_memoryFits ht hfits
    rw [Returns, hstep]
    rfl
  exact ⟨stays_of_stepsFit hkeeps ht hfits, StepsFit.imp hkeeps hreturns ht hfits⟩

theorem memoryFits_of_staysAccounted {uses : List CacheUse}
    (hsmall : t.cache.maxMemory.toNat < 2 ^ 63) (huses : t.StaysAccounted uses) :
    StepsFit step MemoryFits t uses := by
  induction uses generalizing t with
  | nil => trivial
  | cons use uses ih =>
      obtain ⟨⟨ht, hstays⟩, hreturns, hrest⟩ := huses
      obtain ⟨after, hstep⟩ := Option.isSome_iff_exists.mp hreturns
      have hafter := hstays after hstep
      refine ⟨memoryFits_of_step ht hsmall hstep ?_, fun next hnext => ?_⟩
      · cases uses with
        | nil => exact hafter
        | cons _ _ => exact hafter.1
      · cases hstep.symm.trans hnext
        rw [← maxMemory_step hstep] at hsmall
        exact ih hsmall ⟨hafter, hrest after hstep⟩

/-- Runs whose puts fit are accounted for, and in a cache of less than `2^63` bytes no others. -/
theorem cache_accounted_iff (maxMemory : UInt64) (now : Int) (uses : List CacheUse) :
    (StepsFit step MemoryFits (start maxMemory now) uses →
        (start maxMemory now).StaysAccounted uses) ∧
      ((queryCacheInit maxMemory).maxMemory.toNat < 2 ^ 63 →
        (start maxMemory now).StaysAccounted uses →
          StepsFit step MemoryFits (start maxMemory now) uses) :=
  ⟨staysAccounted_of_memoryFits (accounts_start maxMemory now),
    fun hsmall huses => memoryFits_of_staysAccounted hsmall huses⟩

/-- A result without rows, of a given size. -/
def resultOfSize (memoryUsed : UInt64) : CachedResult where
  resultSet := resultSetFor []
  memoryUsed := memoryUsed

/-- A text is put again with a larger result, and a result is larger than the cache. -/
theorem cache_not_accounted :
    ¬ (start 1000 0).StaysAccounted
        [.put (CStr.lit "SELECT") (resultOfSize 600), .put (CStr.lit "SELECT") (resultOfSize 700)] ∧
      (start 1000 0).step (.put (CStr.lit "SELECT") (resultOfSize 2000)) = none := by
  refine ⟨fun huses => ?_, by decide +kernel⟩
  have hrun : ([.put (CStr.lit "SELECT") (resultOfSize 600),
      .put (CStr.lit "SELECT") (resultOfSize 700)].foldlM step (start 1000 0)).map
        (fun t => (t.cache.totalMemory.toNat, usedMemory t.cache.entries)) = some (600, 700) := by
    decide +kernel
  obtain ⟨after, hafter, heq⟩ := Option.map_eq_some_iff.mp hrun
  have htotal := (huses.1.foldlM hafter).total
  rw [(Prod.mk.inj heq).1, (Prod.mk.inj heq).2] at htotal
  cases htotal

end TimedCache
end Executor
end InventixDB
