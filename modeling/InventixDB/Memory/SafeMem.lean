import InventixDB.Memory.Pool
import InventixDB.Lib.FlatMemory

/-!
# SafeMem — allocations with guards and records

Each block lies between two guards, and a record tells where the allocation of `malloc` starts that
the block is in.  The records are kept in an array that grows up to a limit; then those of blocks
that are freed are dropped.
-/

namespace InventixDB
namespace Memory

open Lib

/-! ## Records -/

def safeMemGuardSize : UInt64 := 8

def safeMemGuardPattern : UInt8 := 0xDE

def safeMemFreedPattern : UInt8 := 0xFE

def safeMemMaxTracked : Nat := 65536

/-- `SafeMemError`, as far as the allocator sets it. -/
inductive SafeMemError
  | ok
  | allocationFailed
  | overflowDetected
  | doubleFree
  | quotaExceeded
  deriving DecidableEq

/-- `AllocationRecord`, without the place in the source and the time. -/
structure AllocationRecord where
  ptr : UInt64
  realPtr : UInt64
  size : UInt64
  realSize : UInt64
  freed : Bool
  deriving DecidableEq

/-- `SafeMemContext`; there are `record_count` records. -/
structure SafeMemContext where
  records : List AllocationRecord
  recordCapacity : Nat
  totalAllocations : UInt64
  totalFrees : UInt64
  totalBytesAllocated : UInt64
  totalBytesFreed : UInt64
  currentBytes : UInt64
  peakBytes : UInt64
  failedAllocations : UInt64
  lastError : SafeMemError
  trackingEnabled : Bool
  quota : UInt64
  quotaEnabled : Bool

namespace SafeMemContext

variable (ctx : SafeMemContext)

/-- `find_record` -/
def findRecord (ptr : UInt64) : Option AllocationRecord :=
  ctx.records.find? fun record => record.ptr == ptr && !record.freed

/-- `add_record`; `grows` tells whether `realloc` has memory for twice as many records. -/
def addRecord (record : AllocationRecord) (grows : Bool) : SafeMemContext :=
  if ctx.records.length ≥ ctx.recordCapacity then
    let newCapacity := ctx.recordCapacity * 2
    if newCapacity > safeMemMaxTracked then
      let records := ctx.records.filter fun record => !record.freed
      if records.length ≥ ctx.recordCapacity then { ctx with records := records }
      else { ctx with records := records ++ [record] }
    else if grows then
      { ctx with records := ctx.records ++ [record], recordCapacity := newCapacity }
    else ctx
  else { ctx with records := ctx.records ++ [record] }

/-- `rec->freed = true` for the record that `find_record` returns. -/
def markFreed (ptr : UInt64) : List AllocationRecord → List AllocationRecord
  | [] => []
  | record :: records =>
      if record.ptr == ptr && !record.freed then { record with freed := true } :: records
      else record :: markFreed ptr records

/-- The quota leaves no room for `size` bytes more. -/
def overQuota (size : UInt64) : Bool :=
  ctx.quotaEnabled && ctx.currentBytes + size > ctx.quota

/-- An allocation that fails. -/
def fail (error : SafeMemError) : SafeMemContext :=
  { ctx with lastError := error, failedAllocations := ctx.failedAllocations + 1 }

/-- The statistics of an allocation. -/
def countAllocation (size : UInt64) : SafeMemContext :=
  let currentBytes := ctx.currentBytes + size
  { ctx with
    totalAllocations := ctx.totalAllocations + 1
    totalBytesAllocated := ctx.totalBytesAllocated + size
    currentBytes := currentBytes
    peakBytes := if currentBytes > ctx.peakBytes then currentBytes else ctx.peakBytes }

/-- The statistics of a block that is freed. -/
def countFree (freedSize : UInt64) : SafeMemContext :=
  { ctx with
    totalFrees := ctx.totalFrees + 1
    totalBytesFreed := ctx.totalBytesFreed + freedSize
    currentBytes := ctx.currentBytes - freedSize }

end SafeMemContext

/-! ## Blocks -/

/-- A block with `size` bytes at `ptr`, in what `malloc` has given at `realPtr`. -/
structure SafeBlock where
  ptr : UInt64
  realPtr : UInt64
  size : UInt64
  deriving DecidableEq

/-- How much `malloc` is asked for. -/
def realSizeOf (size : UInt64) : UInt64 :=
  safeMemGuardSize + size + safeMemGuardSize

namespace SafeBlock

variable (block : SafeBlock)

/-- What `malloc` has given. -/
def region : Region where
  base := block.realPtr.toNat
  len := (realSizeOf block.size).toNat

end SafeBlock

/-- The allocator, the memory, and the blocks that are not freed. -/
structure SafeHeap where
  ctx : SafeMemContext
  memory : Bytes
  blocks : List SafeBlock

namespace SafeHeap

variable (heap : SafeHeap)

/-- `safe_malloc_impl`, with what `malloc` answers: the heap, and a pointer if it is not `NULL`.
Nothing is returned for an answer that cannot be. -/
def safeMallocImpl (size : UInt64) (answer : Option UInt64) (grows : Bool) :
    Option (SafeHeap × Option UInt64) :=
  if size = 0 then some (heap, none)
  else if heap.ctx.overQuota size then
    some ({ heap with ctx := heap.ctx.fail .quotaExceeded }, none)
  else
    match answer with
    | none => some ({ heap with ctx := heap.ctx.fail .allocationFailed }, none)
    | some realPtr =>
        if Fresh (heap.blocks.map SafeBlock.region) (realSizeOf size) realPtr then
          let userPtr := realPtr + safeMemGuardSize
          let memory := heap.memory.fill realPtr safeMemGuardSize safeMemGuardPattern
          let memory := memory.fill (userPtr + size) safeMemGuardSize safeMemGuardPattern
          let record : AllocationRecord :=
            { ptr := userPtr
              realPtr := realPtr
              size := size
              realSize := realSizeOf size
              freed := false }
          let ctx := if heap.ctx.trackingEnabled then heap.ctx.addRecord record grows else heap.ctx
          some
            ({ ctx := ctx.countAllocation size
               memory := memory
               blocks := { ptr := userPtr, realPtr := realPtr, size := size } :: heap.blocks },
              some userPtr)
        else none

/-- `safe_calloc_impl` -/
def safeCallocImpl (count size : UInt64) (answer : Option UInt64) (grows : Bool) :
    Option (SafeHeap × Option UInt64) :=
  let total := count * size
  if count ≠ 0 ∧ total / count ≠ size then some (heap, none)
  else
    (heap.safeMallocImpl total answer grows).map fun (heap, ptr) =>
      match ptr with
      | none => (heap, none)
      | some ptr => ({ heap with memory := heap.memory.fill ptr total 0 }, some ptr)

/-- Both guards of a block are as they were set. -/
def guardsIntact (ptr realPtr size : UInt64) : Bool :=
  heap.memory.all realPtr safeMemGuardSize.toNat safeMemGuardPattern &&
    heap.memory.all (ptr + size) safeMemGuardSize.toNat safeMemGuardPattern

/-- `free` of what `malloc` has given; nothing is returned for another pointer. -/
def heapFree (realPtr : UInt64) : Option SafeHeap :=
  if ∃ block ∈ heap.blocks, block.realPtr = realPtr then
    some { heap with blocks := heap.blocks.filter fun block => block.realPtr ≠ realPtr }
  else none

/-- `safe_free_impl` -/
def safeFreeImpl (ptr : UInt64) : Option SafeHeap :=
  if ptr = 0 then some heap
  else
    match (if heap.ctx.trackingEnabled then heap.ctx.findRecord ptr else none) with
    | some record =>
        if record.freed then some { heap with ctx := { heap.ctx with lastError := .doubleFree } }
        else
          let records := SafeMemContext.markFreed ptr heap.ctx.records
          heapFree
            { heap with
              ctx := { heap.ctx with records := records }.countFree record.size
              memory := heap.memory.fill ptr record.size safeMemFreedPattern } record.realPtr
    | none => heapFree { heap with ctx := heap.ctx.countFree 0 } ptr

/-- `safe_realloc_impl` -/
def safeReallocImpl (ptr newSize : UInt64) (answer : Option UInt64) (grows : Bool) :
    Option (SafeHeap × Option UInt64) :=
  if ptr = 0 then heap.safeMallocImpl newSize answer grows
  else if newSize = 0 then (heap.safeFreeImpl ptr).map fun heap => (heap, none)
  else
    let record := if heap.ctx.trackingEnabled then heap.ctx.findRecord ptr else none
    if record.any fun record => !heap.guardsIntact ptr record.realPtr record.size then
      some ({ heap with ctx := { heap.ctx with lastError := .overflowDetected } }, none)
    else
      (heap.safeMallocImpl newSize answer grows).bind fun (heap, newPtr) =>
        match newPtr with
        | none => some (heap, none)
        | some newPtr =>
            let oldSize := (record.map AllocationRecord.size).getD 0
            let copySize := if oldSize < newSize then oldSize else newSize
            let memory := if copySize > 0 then heap.memory.copy newPtr ptr copySize else heap.memory
            (safeFreeImpl { heap with memory := memory } ptr).map fun heap => (heap, some newPtr)

/-! ## Runs -/

inductive Call
  | malloc (size : UInt64) (answer : Option UInt64) (grows : Bool)
  | calloc (count size : UInt64) (answer : Option UInt64) (grows : Bool)
  | realloc (ptr newSize : UInt64) (answer : Option UInt64) (grows : Bool)
  | free (ptr : UInt64)
  /-- A byte of a block, or of one of its guards, is written. -/
  | write (addr : UInt64) (byte : UInt8)

/-- The pointer is `NULL` or live. -/
def Valid (ptr : UInt64) : Prop :=
  ptr = 0 ∨ ∃ block ∈ heap.blocks, block.ptr = ptr

instance (ptr : UInt64) : Decidable (heap.Valid ptr) :=
  inferInstanceAs (Decidable (_ ∨ _))

/-- One call, with valid pointers. -/
def step : Call → Option SafeHeap
  | .malloc size answer grows => (heap.safeMallocImpl size answer grows).map Prod.fst
  | .calloc count size answer grows => (heap.safeCallocImpl count size answer grows).map Prod.fst
  | .realloc ptr newSize answer grows =>
      if heap.Valid ptr then (heap.safeReallocImpl ptr newSize answer grows).map Prod.fst
      else none
  | .free ptr => if heap.Valid ptr then heap.safeFreeImpl ptr else none
  | .write addr byte =>
      if ∃ block ∈ heap.blocks, Region.Inside { base := addr.toNat, len := 1 } block.region then
        some { heap with memory := Function.update heap.memory addr byte }
      else none

/-- `safe_mem_init`, and `safe_mem_set_quota` if there is a quota. -/
def start (memory : Bytes) (quota : Option UInt64) : SafeHeap where
  ctx :=
    { records := []
      recordCapacity := 1024
      totalAllocations := 0
      totalFrees := 0
      totalBytesAllocated := 0
      totalBytesFreed := 0
      currentBytes := 0
      peakBytes := 0
      failedAllocations := 0
      lastError := .ok
      trackingEnabled := true
      quota := quota.getD 0
      quotaEnabled := quota.isSome }
  memory := memory
  blocks := []

end SafeHeap

end Memory
end InventixDB
