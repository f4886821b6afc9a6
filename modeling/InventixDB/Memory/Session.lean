import InventixDB.Memory.PoolSoundness
import InventixDB.Memory.ArenaSoundness

/-!
# Session — memory of a session and its quota

A session allocates from pools and arenas, after it has asked its quota.  The quota is balanced as
long as no sum wraps around and every allocation that the quota admits is made.
-/

namespace InventixDB
namespace Memory

open Lib

/-! ## Quotas -/

def memQuotaDefault : UInt64 := 32 * 1024 * 1024

/-- `MemQuota` -/
structure MemQuota where
  limit : UInt64
  used : UInt64
  peak : UInt64
  allocCount : UInt64
  deriving DecidableEq

namespace MemQuota

/-- `quota_create_named` -/
def create (limit : UInt64) : MemQuota where
  limit := if limit > 0 then limit else memQuotaDefault
  used := 0
  peak := 0
  allocCount := 0

variable (quota : MemQuota)

/-- The quota has room for `size` bytes more, as the code finds it. -/
def Admits (size : UInt64) : Prop :=
  quota.used + size ≤ quota.limit

instance (size : UInt64) : Decidable (quota.Admits size) :=
  inferInstanceAs (Decidable (_ ≤ _))

/-- `quota_request`; nothing is returned for `false`. -/
def request (size : UInt64) : Option MemQuota :=
  if quota.used + size > quota.limit then none
  else
    let used := quota.used + size
    some { quota with
      used := used
      allocCount := quota.allocCount + 1
      peak := if used > quota.peak then used else quota.peak }

/-- `quota_release` -/
def release (size : UInt64) : MemQuota :=
  if size > quota.used then { quota with used := 0 }
  else { quota with used := quota.used - size }

end MemQuota

/-! ## Sessions -/

/-- `SessionMemory`; the quota and the pools may be `NULL`. -/
structure SessionMemory where
  quota : Option MemQuota
  arena : Arena
  queryArena : Arena
  smallPool : Option Pool
  mediumPool : Option Pool
  totalAllocated : UInt64

/-- The pool that `pool_create_named` returns, on its own. -/
def newPool (words : Words) (blockSize blockCount : UInt64) (answer : Option UInt64) :
    Option (Option Pool) :=
  (poolCreateNamed [] words blockSize blockCount answer).map fun created =>
    created.map fun (root, words) => { root := root, expansions := [], words := words }

/-- `session_memory_create`, with what `malloc` answers for the two arenas and for the pools. -/
def sessionMemoryCreate (quotaLimit : UInt64) (words : Words) (addr queryAddr : UInt64)
    (small medium : Option UInt64) : Option SessionMemory :=
  (Arena.createWithQuota memArenaDefaultSize 0 addr).bind fun arena =>
    (Arena.createWithQuota (16 * 1024) 0 queryAddr).bind fun queryArena =>
      (newPool words 64 256 small).bind fun smallPool =>
        (newPool words 256 64 medium).map fun mediumPool =>
          { quota := if quotaLimit > 0 then some (MemQuota.create quotaLimit) else none
            arena := arena
            queryArena := queryArena
            smallPool := smallPool
            mediumPool := mediumPool
            totalAllocated := 0 }

namespace SessionMemory

variable (mem : SessionMemory)

/-- What the quota says, and its count; nothing is returned where it refuses. -/
def charge (size : UInt64) : Option SessionMemory :=
  match mem.quota with
  | none => some mem
  | some quota => (quota.request size).map fun quota => { mem with quota := some quota }

/-- `session_alloc` behind the quota, with what `malloc` answers. -/
def serve (size : UInt64) (answer : Option UInt64) : Option (SessionMemory × Option UInt64) :=
  match (if size ≤ 64 then mem.smallPool else none) with
  | some pool =>
      (pool.alloc [answer]).map fun (pool, ptr) => ({ mem with smallPool := some pool }, ptr)
  | none =>
      match (if size ≤ 256 then mem.mediumPool else none) with
      | some pool =>
          (pool.alloc [answer]).map fun (pool, ptr) => ({ mem with mediumPool := some pool }, ptr)
      | none =>
          (mem.arena.alloc size answer).map fun (arena, ptr) =>
            ({ mem with
              arena := arena
              totalAllocated :=
                if ptr.isSome then mem.totalAllocated + size else mem.totalAllocated }, ptr)

/-- `session_alloc_query` behind the quota. -/
def serveQuery (size : UInt64) (answer : Option UInt64) : Option (SessionMemory × Option UInt64) :=
  (mem.queryArena.alloc size answer).map fun (arena, ptr) => ({ mem with queryArena := arena }, ptr)

/-- `session_alloc` -/
def sessionAlloc (size : UInt64) (answer : Option UInt64) :
    Option (SessionMemory × Option UInt64) :=
  match mem.charge size with
  | none => some (mem, none)
  | some mem => mem.serve size answer

/-- `session_alloc_query` -/
def sessionAllocQuery (size : UInt64) (answer : Option UInt64) :
    Option (SessionMemory × Option UInt64) :=
  match mem.charge size with
  | none => some (mem, none)
  | some mem => mem.serveQuery size answer

end SessionMemory

/-! ## Runs -/

inductive SessionCall
  | request (size : UInt64)
  | release (size : UInt64)
  | alloc (size : UInt64) (answer : Option UInt64)
  | allocQuery (size : UInt64) (answer : Option UInt64)

/-- A session, and the sizes that were granted and not released. -/
structure SessionRun where
  mem : SessionMemory
  granted : List UInt64

namespace SessionRun

variable (s : SessionRun)

/-- The session after an allocation; its size is granted unless `NULL` is returned. -/
def allocated (size : UInt64) (r : SessionMemory × Option UInt64) : SessionRun where
  mem := r.1
  granted := if r.2.isSome then size :: s.granted else s.granted

/-- One call; only sizes that were granted are released. -/
def step : SessionCall → Option SessionRun
  | .request size =>
      match s.mem.charge size with
      | none => some s
      | some mem => some { mem := mem, granted := size :: s.granted }
  | .release size =>
      if size ∈ s.granted then
        some
          { mem := { s.mem with quota := s.mem.quota.map fun quota => quota.release size }
            granted := s.granted.erase size }
      else none
  | .alloc size answer => (s.mem.sessionAlloc size answer).map (s.allocated size)
  | .allocQuery size answer => (s.mem.sessionAllocQuery size answer).map (s.allocated size)

/-- What is used is what was granted and not released, within the limit. -/
def Balanced (s : SessionRun) : Prop :=
  ∀ quota ∈ s.mem.quota, quota.used ≤ quota.limit ∧
    quota.used.toNat = (s.granted.map UInt64.toNat).sum

instance : Decidable s.Balanced :=
  inferInstanceAs (Decidable (∀ _ ∈ _, _))

end SessionRun

end Memory
end InventixDB
