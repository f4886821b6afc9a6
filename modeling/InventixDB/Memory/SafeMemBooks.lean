import InventixDB.Memory.SafeMem
import InventixDB.Lib.Runs

/-!
# Books of the safe allocator

Every block that is not freed has a record, as long as each one gets a record and no size wraps
around.
-/

namespace InventixDB
namespace Memory

open Lib

/-! ## Blocks that have a record -/

namespace AllocationRecord

/-- The block of a record that is not marked as freed. -/
def block? (record : AllocationRecord) : Option SafeBlock :=
  if record.freed then none
  else some { ptr := record.ptr, realPtr := record.realPtr, size := record.size }

theorem block?_eq_some {record : AllocationRecord} {block : SafeBlock} :
    record.block? = some block ↔ record.freed = false ∧ record.ptr = block.ptr ∧
      record.realPtr = block.realPtr ∧ record.size = block.size := by
  obtain ⟨ptr, realPtr, size⟩ := block
  unfold block?
  cases record.freed with
  | true => simp
  | false => simp

end AllocationRecord

/-- The blocks that have a record. -/
def recorded (records : List AllocationRecord) : List SafeBlock :=
  records.filterMap AllocationRecord.block?

theorem recorded_append (records records' : List AllocationRecord) :
    recorded (records ++ records') = recorded records ++ recorded records' :=
  List.filterMap_append

/-- Records of freed blocks can be dropped. -/
theorem recorded_filter (records : List AllocationRecord) :
    recorded (records.filter fun record => !record.freed) = recorded records := by
  induction records with
  | nil => rfl
  | cons record records ih =>
      unfold recorded at ih ⊢
      cases hfreed : record.freed with
      | true =>
          rw [List.filter_cons_of_neg (by simp [hfreed]), ih, List.filterMap_cons,
            AllocationRecord.block?, hfreed]
          rfl
      | false =>
          rw [List.filter_cons_of_pos (by simp [hfreed]), List.filterMap_cons, List.filterMap_cons,
            ih]

namespace SafeMemContext

variable {ctx : SafeMemContext} {record : AllocationRecord} {grows : Bool} {ptr : UInt64}

/-- There is room for one record more, or it can be made. -/
def Recordable (ctx : SafeMemContext) (grows : Bool) : Prop :=
  ctx.records.length < ctx.recordCapacity ∨
    if ctx.recordCapacity * 2 > safeMemMaxTracked then
      (ctx.records.filter fun record => !record.freed).length < ctx.recordCapacity
    else grows = true

instance (ctx : SafeMemContext) (grows : Bool) : Decidable (ctx.Recordable grows) :=
  inferInstanceAs (Decidable (_ ∨ ite _ _ _))

/-- `add_record` -/
theorem addRecord_spec (ctx : SafeMemContext) (record : AllocationRecord) (grows : Bool) :
    ∃ records capacity,
      ctx.addRecord record grows = { ctx with records := records, recordCapacity := capacity } ∧
      recorded records =
        recorded ctx.records ++ if ctx.Recordable grows then recorded [record] else [] := by
  unfold addRecord
  by_cases hroom : ctx.records.length < ctx.recordCapacity
  · have hrecordable : ctx.Recordable grows := .inl hroom
    rw [if_neg (Nat.not_le.mpr hroom), if_pos hrecordable]
    exact ⟨_, _, rfl, recorded_append _ _⟩
  · rw [if_pos (Nat.not_lt.mp hroom)]
    dsimp only
    by_cases hlimit : ctx.recordCapacity * 2 > safeMemMaxTracked
    · rw [if_pos hlimit]
      by_cases hfull : (ctx.records.filter fun record => !record.freed).length < ctx.recordCapacity
      · have hrecordable : ctx.Recordable grows := by
          right
          rw [if_pos hlimit]
          exact hfull
        rw [if_neg (Nat.not_le.mpr hfull), if_pos hrecordable]
        exact ⟨_, _, rfl, by rw [recorded_append, recorded_filter]⟩
      · have hrefused : ¬ ctx.Recordable grows := by
          rw [Recordable, if_pos hlimit]
          exact not_or.mpr ⟨hroom, hfull⟩
        rw [if_pos (Nat.not_lt.mp hfull), if_neg hrefused, List.append_nil]
        exact ⟨_, _, rfl, recorded_filter _⟩
    · rw [if_neg hlimit]
      cases grows with
      | true =>
          have hrecordable : ctx.Recordable true := by
            right
            rw [if_neg hlimit]
          rw [if_pos rfl, if_pos hrecordable]
          exact ⟨_, _, rfl, recorded_append _ _⟩
      | false =>
          have hrefused : ¬ ctx.Recordable false := by
            rw [Recordable, if_neg hlimit]
            exact not_or.mpr ⟨hroom, Bool.false_ne_true⟩
          rw [if_neg Bool.false_ne_true, if_neg hrefused, List.append_nil]
          exact ⟨_, _, rfl, rfl⟩

/-- `find_record` -/
theorem block_of_findRecord (hfind : ctx.findRecord ptr = some record) :
    ∃ block ∈ recorded ctx.records, record.block? = some block ∧ block.ptr = ptr := by
  have hpasses := List.find?_some hfind
  rw [Bool.and_eq_true, beq_iff_eq, Bool.not_eq_true'] at hpasses
  have hsome : record.block?
      = some { ptr := record.ptr, realPtr := record.realPtr, size := record.size } :=
    AllocationRecord.block?_eq_some.mpr ⟨hpasses.2, rfl, rfl, rfl⟩
  refine ⟨_, List.mem_filterMap.mpr ⟨record, ?_, hsome⟩, hsome, hpasses.1⟩
  exact List.mem_of_find?_eq_some hfind

theorem findRecord_isSome {block : SafeBlock} (hblock : block ∈ recorded ctx.records) :
    (ctx.findRecord block.ptr).isSome := by
  obtain ⟨record, hrecord, hsame⟩ := List.mem_filterMap.mp hblock
  obtain ⟨hfreed, hptr, -, -⟩ := AllocationRecord.block?_eq_some.mp hsame
  exact List.find?_isSome.mpr ⟨record, hrecord, by simp [hfreed, hptr]⟩

theorem recorded_markFreed {records : List AllocationRecord} {block : SafeBlock}
    (hfind : records.find? (fun record => record.ptr == ptr && !record.freed) = some record)
    (hblock : record.block? = some block) :
    (recorded records).Perm (block :: recorded (markFreed ptr records)) := by
  induction records with
  | nil => cases hfind
  | cons first records ih =>
      rw [List.find?_cons] at hfind
      rw [markFreed]
      split at hfind
      · rename_i hpasses
        cases hfind
        rw [if_pos hpasses, recorded, recorded, List.filterMap_cons, hblock, List.filterMap_cons]
        exact List.Perm.refl _
      · rename_i hpasses
        rw [if_neg (by rw [hpasses]; exact Bool.false_ne_true), recorded, recorded,
          List.filterMap_cons, List.filterMap_cons]
        cases first.block? with
        | none => exact ih hfind
        | some other => exact ((ih hfind).cons other).trans (List.Perm.swap _ _ _)

end SafeMemContext

/-! ## Where the blocks lie -/

namespace SafeBlock

variable {block other : SafeBlock}

/-- The block lies between its guards, and no sum of its size wraps around. -/
structure Guarded (block : SafeBlock) : Prop where
  ptr_eq : block.ptr.toNat = block.realPtr.toNat + 8
  len_eq : block.region.len = block.size.toNat + 16
  base_pos : 0 < block.realPtr.toNat
  stop_lt : block.realPtr.toNat + block.size.toNat + 16 < 2 ^ 64

/-- Of two blocks apart, one ends before the other begins. -/
theorem Guarded.apart (h : block.Guarded) (h' : other.Guarded)
    (hapart : block.region.Apart other.region) :
    block.realPtr.toNat + block.size.toNat + 16 ≤ other.realPtr.toNat ∨
      other.realPtr.toNat + other.size.toNat + 16 ≤ block.realPtr.toNat := by
  refine hapart.imp (fun hbefore => ?_) fun hbehind => ?_
  · have hstop : block.realPtr.toNat + block.region.len ≤ other.realPtr.toNat := hbefore
    rwa [h.len_eq] at hstop
  · have hstop : other.realPtr.toNat + other.region.len ≤ block.realPtr.toNat := hbehind
    rwa [h'.len_eq] at hstop

theorem Guarded.realPtr_ne (h : block.Guarded) (h' : other.Guarded)
    (hapart : block.region.Apart other.region) : block.realPtr ≠ other.realPtr := by
  intro hsame
  have hbase : block.realPtr.toNat = other.realPtr.toNat := congrArg UInt64.toNat hsame
  have happart := h.apart h' hapart
  omega

theorem Guarded.realPtr_eq (h : block.Guarded) (h' : other.Guarded) (hptr : block.ptr = other.ptr) :
    block.realPtr = other.realPtr := by
  have hsame := congrArg UInt64.toNat hptr
  rw [h.ptr_eq, h'.ptr_eq] at hsame
  exact UInt64.toNat_inj.mp (Nat.add_right_cancel hsame)

theorem Guarded.ptr_ne_zero (h : block.Guarded) : block.ptr ≠ 0 := by
  intro hzero
  have hptr := h.ptr_eq
  rw [hzero, UInt64.toNat_zero] at hptr
  omega

theorem toNat_realSizeOf {size : UInt64} (hfits : size.toNat + 16 < 2 ^ 64) :
    (realSizeOf size).toNat = size.toNat + 16 := by
  rw [realSizeOf, UInt64.toNat_add, UInt64.toNat_add]
  change ((8 + size.toNat) % 2 ^ 64 + 8) % 2 ^ 64 = _
  omega

/-- What `malloc` gives for a size that does not wrap around. -/
theorem guarded_of_fresh {taken : List Region} {size realPtr : UInt64}
    (hfits : size.toNat + 16 < 2 ^ 64) (hfresh : Fresh taken (realSizeOf size) realPtr) :
    Guarded { ptr := realPtr + safeMemGuardSize, realPtr := realPtr, size := size } := by
  obtain ⟨hpos, -, hstop, -⟩ := hfresh
  rw [toNat_realSizeOf hfits] at hstop
  refine ⟨?_, toNat_realSizeOf hfits, hpos, ?_⟩
  · change (realPtr + safeMemGuardSize).toNat = realPtr.toNat + 8
    rw [UInt64.toNat_add]
    change (realPtr.toNat + 8) % 2 ^ 64 = _
    omega
  · change realPtr.toNat + size.toNat + 16 < 2 ^ 64
    omega

/-- A byte of the block lies between the guards. -/
theorem Guarded.toNat_ptr_add (h : block.Guarded) {i : UInt64} (hi : i < block.size) :
    (block.ptr + i).toNat = block.realPtr.toNat + 8 + i.toNat := by
  have hlt := UInt64.lt_iff_toNat_lt.mp hi
  have hstop := h.stop_lt
  rw [UInt64.toNat_add, h.ptr_eq]
  exact Nat.mod_eq_of_lt (by omega)

/-- No byte of a block is a byte of another one, or of its guards. -/
theorem Guarded.outside (h : block.Guarded) (h' : other.Guarded)
    (hapart : block.region.Apart other.region) {i : UInt64} (hi : i < block.size) :
    (block.ptr + i).toNat < other.realPtr.toNat ∨
      other.realPtr.toNat + other.size.toNat + 16 ≤ (block.ptr + i).toNat := by
  have hbyte := h.toNat_ptr_add hi
  have hlt := UInt64.lt_iff_toNat_lt.mp hi
  have happart := h.apart h' hapart
  omega

/-- The guards of a new block are all that is written. -/
theorem fill_guards_of_outside {memory : Bytes} {realPtr size a : UInt64}
    (h : Guarded { ptr := realPtr + safeMemGuardSize, realPtr := realPtr, size := size })
    (ha : a.toNat < realPtr.toNat ∨ realPtr.toNat + size.toNat + 16 ≤ a.toNat) :
    (memory.fill realPtr safeMemGuardSize safeMemGuardPattern).fill
      (realPtr + safeMemGuardSize + size) safeMemGuardSize safeMemGuardPattern a = memory a := by
  have hstop : realPtr.toNat + size.toNat + 16 < 2 ^ 64 := h.stop_lt
  have hptr : (realPtr + safeMemGuardSize).toNat = realPtr.toNat + 8 := h.ptr_eq
  have hguard : safeMemGuardSize.toNat = 8 := rfl
  have hend : (realPtr + safeMemGuardSize + size).toNat = realPtr.toNat + 8 + size.toNat := by
    rw [UInt64.toNat_add, hptr]
    exact Nat.mod_eq_of_lt (by omega)
  rw [Bytes.fill_of_outside (by omega) (by omega), Bytes.fill_of_outside (by omega) (by omega)]

end SafeBlock

def sumSizes (blocks : List SafeBlock) : Nat :=
  (blocks.map fun block => block.size.toNat).sum

namespace SafeHeap

open SafeMemContext SafeBlock

variable {heap after : SafeHeap} {size ptr : UInt64} {answer result : Option UInt64} {grows : Bool}
  {block other : SafeBlock} {blocks : List SafeBlock}

/-- The blocks lie apart from each other. -/
structure Apart (blocks : List SafeBlock) : Prop where
  guarded : ∀ block ∈ blocks, block.Guarded
  apart : blocks.Pairwise fun block other => block.region.Apart other.region

theorem Apart.perm {blocks' : List SafeBlock} (h : Apart blocks) (hperm : blocks.Perm blocks') :
    Apart blocks' where
  guarded block hblock := h.guarded block (hperm.mem_iff.mpr hblock)
  apart := (hperm.pairwise_iff fun hapart => hapart.symm).mp h.apart

theorem Apart.tail (h : Apart (block :: blocks)) : Apart blocks where
  guarded other hother := h.guarded other (List.mem_cons_of_mem _ hother)
  apart := (List.pairwise_cons.mp h.apart).2

/-- There are fewer bytes in the blocks than addresses. -/
theorem Apart.sumSizes_lt (h : Apart blocks) : sumSizes blocks < 2 ^ 64 := by
  have hregions : (blocks.map region).Pairwise Region.Apart := List.pairwise_map.mpr h.apart
  have hbound : ∀ r ∈ blocks.map region, r.stop ≤ 2 ^ 64 - 1 := by
    refine List.forall_mem_map.mpr fun block hblock => ?_
    have hguarded := h.guarded block hblock
    have hlen := hguarded.len_eq
    have hstop := hguarded.stop_lt
    change block.realPtr.toNat + block.region.len ≤ _
    omega
  have hroom := Region.sum_len_le hregions hbound
  have hle : sumSizes blocks ≤ ((blocks.map region).map Region.len).sum := by
    rw [List.map_map]
    refine List.sum_le_sum fun block hblock => ?_
    have hlen := (h.guarded block hblock).len_eq
    change block.size.toNat ≤ block.region.len
    omega
  omega

/-- Blocks are known by where they start. -/
theorem Apart.eq_of_ptr (h : Apart blocks) (hblock : block ∈ blocks) (hother : other ∈ blocks)
    (hptr : block.ptr = other.ptr) : block = other := by
  have hsame := (h.guarded block hblock).realPtr_eq (h.guarded other hother) hptr
  by_contra hne
  refine absurd hsame ((h.guarded block hblock).realPtr_ne (h.guarded other hother) ?_)
  have hsymm : Std.Symm fun a b : SafeBlock => a.region.Apart b.region :=
    ⟨fun _ _ hapart => hapart.symm⟩
  exact h.apart.forall hblock hother hne

/-- What is left when `free` gets a block back. -/
theorem Apart.perm_filter (h : Apart blocks) (hblock : block ∈ blocks) :
    blocks.Perm (block :: blocks.filter fun other => other.realPtr ≠ block.realPtr) := by
  induction blocks with
  | nil => cases hblock
  | cons first blocks ih =>
      have hfirst := List.pairwise_cons.mp h.apart
      have hguarded := List.forall_mem_cons.mp h.guarded
      rcases List.mem_cons.mp hblock with rfl | hin
      · have hkept : blocks.filter (fun other => other.realPtr ≠ block.realPtr) = blocks := by
          refine List.filter_eq_self.mpr fun other hother => decide_eq_true ?_
          exact (hguarded.1.realPtr_ne (hguarded.2 other hother) (hfirst.1 other hother)).symm
        rw [List.filter_cons_of_neg (by simp), hkept]
      · have hne : first.realPtr ≠ block.realPtr :=
          hguarded.1.realPtr_ne (hguarded.2 block hin) (hfirst.1 block hin)
        rw [List.filter_cons_of_pos (by simpa using hne)]
        exact ((ih h.tail hin).cons first).trans (List.Perm.swap _ _ _)

/-! ## Books -/

/-- The records and the counters are those of the blocks. -/
structure Kept (heap : SafeHeap) : Prop where
  tracking : heap.ctx.trackingEnabled = true
  apart : Apart heap.blocks
  records : (recorded heap.ctx.records).Perm heap.blocks
  bytes_eq : heap.ctx.currentBytes.toNat = sumSizes heap.blocks
  quota_le : heap.ctx.quotaEnabled = true → heap.ctx.currentBytes ≤ heap.ctx.quota

/-- A block is found by its pointer. -/
theorem Kept.findRecord_eq (h : heap.Kept) (hblock : block ∈ heap.blocks) :
    ∃ record, heap.ctx.findRecord block.ptr = some record ∧ record.block? = some block := by
  have hrecorded := h.records.mem_iff.mpr hblock
  obtain ⟨record, hfind⟩ := Option.isSome_iff_exists.mp (findRecord_isSome hrecorded)
  obtain ⟨other, hother, hsome, hptr⟩ := block_of_findRecord hfind
  refine ⟨record, hfind, ?_⟩
  rw [hsome, h.apart.eq_of_ptr (h.records.mem_iff.mp hother) hblock hptr]

/-- The request is granted. -/
def Grants (heap : SafeHeap) (size : UInt64) (answer : Option UInt64) : Prop :=
  size ≠ 0 ∧ heap.ctx.overQuota size = false ∧ answer.isSome

/-- What is granted does not wrap around, and gets a record. -/
def Books (heap : SafeHeap) (size : UInt64) (answer : Option UInt64) (grows : Bool) : Prop :=
  heap.Grants size answer → size.toNat + 16 < 2 ^ 64 ∧ heap.ctx.Recordable grows

/-- `safe_malloc_impl` -/
theorem safeMallocImpl_cases
    (hmalloc : heap.safeMallocImpl size answer grows = some (after, result)) :
    (¬ heap.Grants size answer ∧ result = none ∧ after.memory = heap.memory ∧
      after.blocks = heap.blocks ∧ ∃ error failed,
        after.ctx = { heap.ctx with lastError := error, failedAllocations := failed }) ∨
    (heap.Grants size answer ∧ ∃ realPtr, answer = some realPtr ∧
      Fresh (heap.blocks.map region) (realSizeOf size) realPtr ∧
      result = some (realPtr + safeMemGuardSize) ∧
      after.memory = (heap.memory.fill realPtr safeMemGuardSize safeMemGuardPattern).fill
        (realPtr + safeMemGuardSize + size) safeMemGuardSize safeMemGuardPattern ∧
      after.blocks =
        { ptr := realPtr + safeMemGuardSize, realPtr := realPtr, size := size } :: heap.blocks ∧
      after.ctx = (if heap.ctx.trackingEnabled then
          heap.ctx.addRecord
            { ptr := realPtr + safeMemGuardSize
              realPtr := realPtr
              size := size
              realSize := realSizeOf size
              freed := false } grows
        else heap.ctx).countAllocation size) := by
  unfold safeMallocImpl at hmalloc
  split at hmalloc
  · rename_i hzero
    cases hmalloc
    exact .inl ⟨fun hgrants => hgrants.1 hzero, rfl, rfl, rfl, _, _, rfl⟩
  · rename_i hsize
    split at hmalloc
    · rename_i hover
      cases hmalloc
      refine .inl ⟨fun hgrants => ?_, rfl, rfl, rfl, _, _, rfl⟩
      rw [hgrants.2.1] at hover
      cases hover
    · rename_i hover
      rw [Bool.not_eq_true] at hover
      cases answer with
      | none =>
          cases hmalloc
          exact .inl ⟨fun hgrants => absurd hgrants.2.2 (by simp), rfl, rfl, rfl, _, _, rfl⟩
      | some realPtr =>
          dsimp only at hmalloc
          split at hmalloc
          · rename_i hfresh
            cases hmalloc
            exact .inr ⟨⟨hsize, hover, rfl⟩, realPtr, rfl, hfresh, rfl, rfl, rfl, rfl⟩
          · cases hmalloc

/-- `safe_malloc_impl`: a new block has a record, and everything outside it stays. -/
theorem safeMallocImpl_kept (h : heap.Kept) (hbooks : heap.Books size answer grows)
    (hmalloc : heap.safeMallocImpl size answer grows = some (after, result)) :
    after.Kept ∧ (result = none → after.memory = heap.memory ∧ after.blocks = heap.blocks) ∧
      ∀ ptr ∈ result, ∃ block, block.ptr = ptr ∧ block.size = size ∧ block.Guarded ∧
        after.blocks = block :: heap.blocks ∧
        ∀ a, (a.toNat < block.realPtr.toNat ∨ block.realPtr.toNat + size.toNat + 16 ≤ a.toNat) →
          after.memory a = heap.memory a := by
  rcases safeMallocImpl_cases hmalloc with
    ⟨-, rfl, hmemory, hblocks, error, failed, hctx⟩ |
    ⟨hgrants, realPtr, -, hfresh, rfl, hmemory, hblocks, hctx⟩
  · refine ⟨⟨?_, ?_, ?_, ?_, ?_⟩, fun _ => ⟨hmemory, hblocks⟩, by simp⟩
    · rw [hctx]
      exact h.tracking
    · rw [hblocks]
      exact h.apart
    · rw [hctx, hblocks]
      exact h.records
    · rw [hctx, hblocks]
      exact h.bytes_eq
    · rw [hctx]
      exact h.quota_le
  · obtain ⟨hfits, hrecordable⟩ := hbooks hgrants
    have hguarded := guarded_of_fresh hfits hfresh
    generalize hblock : SafeBlock.mk (realPtr + safeMemGuardSize) realPtr size = block
      at hguarded hblocks
    have hapart : Apart after.blocks := by
      rw [hblocks]
      refine ⟨List.forall_mem_cons.mpr ⟨hguarded, h.apart.guarded⟩,
        List.pairwise_cons.mpr ⟨fun other hother => ?_, h.apart.apart⟩⟩
      subst hblock
      exact (hfresh.2.2.2 _ (List.mem_map_of_mem hother)).symm
    obtain ⟨records, capacity, hadd, hrecords⟩ := heap.ctx.addRecord_spec
      { ptr := realPtr + safeMemGuardSize
        realPtr := realPtr
        size := size
        realSize := realSizeOf size
        freed := false } grows
    rw [if_pos hrecordable] at hrecords
    rw [if_pos h.tracking, hadd] at hctx
    have hsum : heap.ctx.currentBytes.toNat + size.toNat = sumSizes after.blocks := by
      rw [h.bytes_eq, hblocks, sumSizes, sumSizes, List.map_cons, List.sum_cons, ← hblock]
      exact Nat.add_comm _ _
    have hbytes : (heap.ctx.currentBytes + size).toNat = sumSizes after.blocks := by
      rw [UInt64.toNat_add, hsum]
      exact Nat.mod_eq_of_lt hapart.sumSizes_lt
    refine ⟨⟨?_, hapart, ?_, ?_, ?_⟩, by simp, ?_⟩
    · rw [hctx]
      exact h.tracking
    · rw [hctx, hblocks]
      change (recorded records).Perm _
      rw [hrecords, ← hblock]
      exact (h.records.append_right _).trans (List.perm_append_singleton _ _)
    · rw [hctx]
      exact hbytes
    · rw [hctx]
      intro henabled
      have hover := hgrants.2.1
      rw [overQuota, show heap.ctx.quotaEnabled = true from henabled, Bool.true_and,
        decide_eq_false_iff_not] at hover
      exact UInt64.not_lt.mp hover
    · rintro _ ⟨⟩
      refine ⟨block, ?_, ?_, hguarded, hblocks, fun a ha => ?_⟩
      · rw [← hblock]
      · rw [← hblock]
      · rw [← hblock] at hguarded ha
        rw [hmemory]
        exact fill_guards_of_outside hguarded ha

/-- `safe_free_impl` -/
theorem safeFreeImpl_spec (h : heap.Kept) (hblock : block ∈ heap.blocks)
    (hfree : heap.safeFreeImpl block.ptr = some after) :
    after.Kept ∧ heap.blocks.Perm (block :: after.blocks) ∧
      after.memory = heap.memory.fill block.ptr block.size safeMemFreedPattern := by
  obtain ⟨record, hfind, hsome⟩ := h.findRecord_eq hblock
  obtain ⟨hfreed, -, hrealPtr, hsize⟩ := AllocationRecord.block?_eq_some.mp hsome
  rw [safeFreeImpl, if_neg (h.apart.guarded block hblock).ptr_ne_zero, if_pos h.tracking, hfind]
    at hfree
  dsimp only at hfree
  rw [if_neg (by rw [hfreed]; exact Bool.false_ne_true), heapFree, hrealPtr, hsize,
    if_pos ⟨block, hblock, rfl⟩] at hfree
  cases hfree
  have hperm := h.apart.perm_filter hblock
  have hrecords := recorded_markFreed hfind hsome
  have hsum : sumSizes heap.blocks = block.size.toNat
      + sumSizes (heap.blocks.filter fun other => other.realPtr ≠ block.realPtr) := by
    have hmap := (hperm.map fun block => block.size.toNat).sum_eq
    rw [List.map_cons, List.sum_cons] at hmap
    exact hmap
  have hbytes := h.bytes_eq
  rw [hsum] at hbytes
  have hle : block.size ≤ heap.ctx.currentBytes := by
    rw [UInt64.le_iff_toNat_le]
    omega
  have hcurrent : (heap.ctx.currentBytes - block.size).toNat
      = heap.ctx.currentBytes.toNat - block.size.toNat := UInt64.toNat_sub_of_le _ _ hle
  refine ⟨⟨h.tracking, (h.apart.perm hperm).tail, ?_, ?_, ?_⟩, hperm, rfl⟩
  · exact List.Perm.cons_inv ((hrecords.symm.trans h.records).trans hperm)
  · change (heap.ctx.currentBytes - block.size).toNat = _
    rw [hcurrent]
    exact Nat.sub_eq_of_eq_add (hbytes.trans (Nat.add_comm _ _))
  · intro henabled
    have hquota := UInt64.le_iff_toNat_le.mp (h.quota_le henabled)
    rw [UInt64.le_iff_toNat_le]
    change (heap.ctx.currentBytes - block.size).toNat ≤ heap.ctx.quota.toNat
    omega

/-- Books do not depend on what the memory holds. -/
theorem Kept.write (h : heap.Kept) (memory : Bytes) : Kept { heap with memory := memory } :=
  ⟨h.tracking, h.apart, h.records, h.bytes_eq, h.quota_le⟩

theorem Kept.error (h : heap.Kept) (error : SafeMemError) :
    Kept { heap with ctx := { heap.ctx with lastError := error } } :=
  ⟨h.tracking, h.apart, h.records, h.bytes_eq, h.quota_le⟩

/-- `safe_realloc_impl` of a block. -/
theorem safeReallocImpl_spec (h : heap.Kept) (hblock : block ∈ heap.blocks)
    (hbooks : heap.guardsIntact block.ptr block.realPtr block.size = true →
      heap.Books size answer grows)
    (hrealloc : heap.safeReallocImpl block.ptr size answer grows = some (after, result)) :
    after.Kept ∧ ∀ newPtr ∈ result, ∀ i : UInt64, i < block.size → i < size →
      after.memory (newPtr + i) = heap.memory (block.ptr + i) := by
  have hguarded := h.apart.guarded block hblock
  obtain ⟨record, hfind, hsome⟩ := h.findRecord_eq hblock
  obtain ⟨-, -, hrealPtr, hsize⟩ := AllocationRecord.block?_eq_some.mp hsome
  rw [safeReallocImpl, if_neg hguarded.ptr_ne_zero] at hrealloc
  split at hrealloc
  · obtain ⟨freed, hfree, hpair⟩ := Option.map_eq_some_iff.mp hrealloc
    cases hpair
    exact ⟨(safeFreeImpl_spec h hblock hfree).1, by simp⟩
  · dsimp only at hrealloc
    rw [if_pos h.tracking, hfind, Option.any_some, hrealPtr, hsize] at hrealloc
    cases hintact : heap.guardsIntact block.ptr block.realPtr block.size with
    | false =>
        rw [hintact, if_pos (by rfl)] at hrealloc
        cases hrealloc
        exact ⟨h.error _, by simp⟩
    | true =>
        rw [hintact, if_neg (by simp)] at hrealloc
        obtain ⟨⟨grown, newPtr⟩, hmalloc, hrest⟩ := Option.bind_eq_some_iff.mp hrealloc
        obtain ⟨hkept, hnone, hnew⟩ := safeMallocImpl_kept h (hbooks hintact) hmalloc
        cases newPtr with
        | none =>
            cases hrest
            exact ⟨hkept, by simp⟩
        | some newPtr =>
            obtain ⟨new, hptr, hnewSize, hnewGuarded, hblocks, hframe⟩ := hnew newPtr rfl
            dsimp only at hrest
            rw [Option.map_some, Option.getD_some, hsize] at hrest
            generalize hcopied :
              (if (if block.size < size then block.size else size) > 0 then _ else _) = copied
              at hrest
            obtain ⟨freed, hfree, hpair⟩ := Option.map_eq_some_iff.mp hrest
            cases hpair
            have hin : block ∈ grown.blocks := by
              rw [hblocks]
              exact List.mem_cons_of_mem _ hblock
            have hkept' : Kept { grown with memory := copied } := hkept.write copied
            obtain ⟨hfreed, -, hmemory⟩ := safeFreeImpl_spec hkept' hin hfree
            refine ⟨hfreed, ?_⟩
            rintro _ ⟨⟩ i hold hi
            have hapart : new.region.Apart block.region := by
              have hall := hkept.apart.apart
              rw [hblocks] at hall
              exact (List.pairwise_cons.mp hall).1 block hblock
            rw [← hnewSize] at hi
            -- The old block is filled, and what was copied is not in it.
            have houtside := hnewGuarded.outside hguarded hapart hi
            have hstop := hguarded.stop_lt
            have hbase := hguarded.ptr_eq
            rw [hptr] at houtside
            have hkeeps : after.memory (newPtr + i) = copied (newPtr + i) := by
              rw [hmemory]
              exact Bytes.fill_of_outside (by omega) (by omega)
            have hcopy : i < (if block.size < size then block.size else size) := by
              rw [← hnewSize]
              split
              · exact hold
              · exact hi
            have hpositive : (if block.size < size then block.size else size) > 0 :=
              UInt64.lt_of_le_of_lt UInt64.zero_le hcopy
            rw [if_pos hpositive] at hcopied
            calc
              after.memory (newPtr + i) = copied (newPtr + i) := hkeeps
              _ = grown.memory (block.ptr + i) := by
                rw [← hcopied]
                exact Bytes.copy_add hcopy
              _ = heap.memory (block.ptr + i) := by
                refine hframe _ ?_
                rw [← hnewSize]
                exact hguarded.outside hnewGuarded hapart.symm hold

/-! ## Runs -/

variable {call : Call}

/-- What the allocator's user relies on in every state. -/
structure Booked (heap : SafeHeap) : Prop where
  bytes_eq : heap.ctx.currentBytes.toNat = sumSizes heap.blocks
  quota_le : heap.ctx.quotaEnabled = true → heap.ctx.currentBytes ≤ heap.ctx.quota
  recorded : ∀ block ∈ heap.blocks, ∃ record, heap.ctx.findRecord block.ptr = some record ∧
    record.realPtr = block.realPtr

/-- A block that is moved keeps its bytes, as many as there is room for. -/
def Preserves (heap : SafeHeap) : Call → Prop
  | .realloc ptr newSize answer grows =>
      ∀ after newPtr, heap.safeReallocImpl ptr newSize answer grows = some (after, some newPtr) →
        ∀ block ∈ heap.blocks, block.ptr = ptr → ∀ i : UInt64, i < block.size → i < newSize →
          after.memory (newPtr + i) = heap.memory (ptr + i)
  | _ => True

/-- What the call is granted does not wrap around, and gets a record. -/
def Fits (heap : SafeHeap) : Call → Prop
  | .malloc size answer grows => heap.Books size answer grows
  | .calloc count size answer grows =>
      (count ≠ 0 → count * size / count = size) → heap.Books (count * size) answer grows
  | .realloc ptr newSize answer grows =>
      (∀ block ∈ heap.blocks, block.ptr = ptr →
        heap.guardsIntact ptr block.realPtr block.size = true) → heap.Books newSize answer grows
  | _ => True

instance (heap : SafeHeap) (size : UInt64) (answer : Option UInt64) (grows : Bool) :
    Decidable (heap.Books size answer grows) :=
  inferInstanceAs (Decidable (_ ∧ _ ∧ _ → _ ∧ _))

instance (heap : SafeHeap) : (call : Call) → Decidable (heap.Fits call)
  | .malloc size answer grows => inferInstanceAs (Decidable (heap.Books size answer grows))
  | .calloc _ _ _ _ => inferInstanceAs (Decidable ((_ → _) → _))
  | .realloc _ _ _ _ => inferInstanceAs (Decidable ((∀ _ ∈ _, _) → _))
  | .free _ => isTrue trivial
  | .write _ _ => isTrue trivial

theorem Kept.booked (h : heap.Kept) : heap.Booked where
  bytes_eq := h.bytes_eq
  quota_le := h.quota_le
  recorded block hblock := by
    obtain ⟨record, hfind, hsome⟩ := h.findRecord_eq hblock
    exact ⟨record, hfind, (AllocationRecord.block?_eq_some.mp hsome).2.2.1⟩

/-- A valid pointer is `NULL`, or a block is found there. -/
theorem Valid.exists (hvalid : heap.Valid ptr) (hptr : ptr ≠ 0) :
    ∃ block ∈ heap.blocks, block.ptr = ptr :=
  hvalid.resolve_left hptr

theorem Kept.books_of_fits (h : heap.Kept) (hblock : block ∈ heap.blocks)
    (hfits : heap.Fits (.realloc block.ptr size answer grows))
    (hintact : heap.guardsIntact block.ptr block.realPtr block.size = true) :
    heap.Books size answer grows := by
  refine hfits fun other hother hsame => ?_
  rw [h.apart.eq_of_ptr hother hblock hsame]
  exact hintact

theorem step_kept (h : heap.Kept) (hfits : heap.Fits call) (hstep : heap.step call = some after) :
    after.Kept := by
  cases call with
  | malloc size answer grows =>
      obtain ⟨⟨made, ptr⟩, hmalloc, rfl⟩ := Option.map_eq_some_iff.mp hstep
      exact (safeMallocImpl_kept h hfits hmalloc).1
  | calloc count size answer grows =>
      obtain ⟨⟨made, ptr⟩, hcalloc, rfl⟩ := Option.map_eq_some_iff.mp hstep
      rw [safeCallocImpl] at hcalloc
      dsimp only at hcalloc
      split at hcalloc
      · cases hcalloc
        exact h
      · rename_i hproduct
        have hbooks := hfits fun hcount => by
          by_contra hwrap
          exact hproduct ⟨hcount, hwrap⟩
        obtain ⟨⟨given, result⟩, hmalloc, hpair⟩ := Option.map_eq_some_iff.mp hcalloc
        have hkept := (safeMallocImpl_kept h hbooks hmalloc).1
        cases result with
        | none =>
            cases hpair
            exact hkept
        | some addr =>
            cases hpair
            exact hkept.write _
  | realloc ptr newSize answer grows =>
      rw [step] at hstep
      split at hstep
      · rename_i hvalid
        obtain ⟨⟨made, newPtr⟩, hrealloc, rfl⟩ := Option.map_eq_some_iff.mp hstep
        by_cases hptr : ptr = 0
        · have hbooks := hfits fun block hblock hsame =>
            absurd (hsame.trans hptr) (h.apart.guarded block hblock).ptr_ne_zero
          rw [safeReallocImpl, if_pos hptr] at hrealloc
          exact (safeMallocImpl_kept h hbooks hrealloc).1
        · obtain ⟨block, hblock, rfl⟩ := hvalid.exists hptr
          exact (safeReallocImpl_spec h hblock (h.books_of_fits hblock hfits) hrealloc).1
      · cases hstep
  | free ptr =>
      rw [step] at hstep
      split at hstep
      · rename_i hvalid
        by_cases hptr : ptr = 0
        · rw [safeFreeImpl, if_pos hptr] at hstep
          cases hstep
          exact h
        · obtain ⟨block, hblock, rfl⟩ := hvalid.exists hptr
          exact (safeFreeImpl_spec h hblock hstep).1
      · cases hstep
  | write addr byte =>
      rw [step] at hstep
      split at hstep
      · cases hstep
        exact h.write _
      · cases hstep

theorem preserves_of_kept (h : heap.Kept) (hfits : heap.Fits call) : heap.Preserves call := by
  cases call with
  | realloc ptr newSize answer grows =>
      rintro after newPtr hrealloc block hblock rfl i hold hnew
      obtain ⟨-, hbytes⟩ := safeReallocImpl_spec h hblock (h.books_of_fits hblock hfits) hrealloc
      exact hbytes newPtr rfl i hold hnew
  | malloc _ _ _ => trivial
  | calloc _ _ _ _ => trivial
  | free _ => trivial
  | write _ _ => trivial

theorem start_kept (memory : Bytes) (quota : Option UInt64) : (start memory quota).Kept :=
  ⟨rfl, ⟨by simp [start], List.Pairwise.nil⟩, List.Perm.refl _, rfl, fun _ => UInt64.zero_le⟩

/-- The books match the blocks in every state, and every block that is moved keeps its bytes, in a
run whose blocks get records and whose sizes do not wrap around. -/
theorem stays_booked {memory : Bytes} {quota : Option UInt64} {calls : List Call}
    (hfits : StepsFit step Fits (start memory quota) calls) :
    Stays step Booked (start memory quota) calls ∧
      StepsFit step Preserves (start memory quota) calls := by
  have hstep : ∀ (heap : SafeHeap) (call : Call) (after : SafeHeap), heap.Kept → heap.Fits call →
      heap.step call = some after → after.Kept := fun heap call after h hfits hstep =>
    step_kept h hfits hstep
  have hkept := stays_of_stepsFit hstep (start_kept memory quota) hfits
  refine ⟨hkept.mono fun heap h => h.booked, ?_⟩
  have himp : ∀ (heap : SafeHeap) (call : Call), heap.Kept → heap.Fits call → heap.Preserves call :=
    fun heap call h hfits => preserves_of_kept h hfits
  exact hfits.imp hstep himp (start_kept memory quota)

theorem stays_booked_moved :
    Stays step Booked (start (fun _ => 0) (some 100))
        [.malloc 10 (some 4096) false, .write 4104 7, .realloc 4104 20 (some 8192) false,
          .malloc 81 (some 4096) false, .calloc 3 5 (some 4096) false, .free 8200] ∧
      StepsFit step Preserves (start (fun _ => 0) (some 100))
        [.malloc 10 (some 4096) false, .write 4104 7, .realloc 4104 20 (some 8192) false,
          .malloc 81 (some 4096) false, .calloc 3 5 (some 4096) false, .free 8200] :=
  stays_booked (by decide +kernel)

/-- A request that wraps around passes the quota, and gets a block that is smaller than it. -/
theorem wrapped_request_unbooked :
    ¬ Stays step Booked (start (fun _ => 0) (some 100))
        [.malloc 50 (some 4096) false, .malloc 0xFFFFFFFFFFFFFFF6 (some 8192) false] := by
  intro hstays
  have hbytes := (hstays.foldlM (Option.some_get (by decide +kernel)).symm).bytes_eq
  revert hbytes
  decide +kernel

end SafeHeap

end Memory
end InventixDB
