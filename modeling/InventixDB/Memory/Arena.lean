import InventixDB.Lib.Regions

/-!
# Arena — an allocator that only moves a mark

An arena is a chain of blocks.  It allocates from the current block, and appends a new one when the
current one is full.  A reset goes back to the first block and keeps the others for reuse, but the
next block that is appended takes their place in the chain.
-/

namespace InventixDB
namespace Memory

open Lib

/-! ## Blocks -/

/-- `ArenaBlock`, with its address and a number that no other block has. -/
structure ArenaBlock where
  id : Nat
  addr : UInt64
  size : UInt64
  used : UInt64
  deriving DecidableEq

def sizeofArenaBlock : UInt64 := 24

def memAlignment : UInt64 := 16

def memArenaDefaultSize : UInt64 := 64 * 1024

def memArenaMaxSize : UInt64 := 16 * 1024 * 1024

namespace ArenaBlock

/-- `block->data` -/
def data (block : ArenaBlock) : UInt64 :=
  block.addr + sizeofArenaBlock

/-- What `malloc` has given for the block. -/
def region (block : ArenaBlock) : Region where
  base := block.addr.toNat
  len := sizeofArenaBlock.toNat + block.size.toNat

end ArenaBlock

def alignUp (size alignment : UInt64) : UInt64 :=
  (size + alignment - 1) &&& ~~~(alignment - 1)

/-! ## Arenas -/

/-- `Arena`.  The chain is cut at the current block; `lost` has the blocks that have been allocated
and not freed, and that no link leads to. -/
structure Arena where
  before : List ArenaBlock
  current : ArenaBlock
  after : List ArenaBlock
  lost : List ArenaBlock
  totalAllocated : UInt64
  totalUsed : UInt64
  blockCount : UInt64
  defaultBlockSize : UInt64
  quota : UInt64
  quotaEnabled : Bool
  allocCount : UInt64
  peakUsage : UInt64
  /-- How many blocks there have been. -/
  created : Nat
  deriving DecidableEq

namespace Arena

/-- The blocks from `first` on. -/
def chain (arena : Arena) : List ArenaBlock :=
  arena.before ++ arena.current :: arena.after

/-- The blocks that are not freed. -/
def blocks (arena : Arena) : List ArenaBlock :=
  arena.chain ++ arena.lost

/-- `malloc` can answer a call for `total` bytes with `addr`: no object is larger than
`PTRDIFF_MAX`, and none overlaps another. -/
def Grants (taken : List ArenaBlock) (total addr : UInt64) : Prop :=
  0 < addr.toNat ∧ total.toNat < 2 ^ 63 ∧ addr.toNat + total.toNat < 2 ^ 64 ∧
    ∀ block ∈ taken, block.region.Apart { base := addr.toNat, len := total.toNat }

instance (taken : List ArenaBlock) (total addr : UInt64) : Decidable (Grants taken total addr) := by
  unfold Grants
  infer_instance

/-- `arena_block_create`, with the answer of `malloc`; nothing is returned for an answer that cannot
be. -/
def blockCreate (taken : List ArenaBlock) (id : Nat) (size : UInt64) (answer : Option UInt64) :
    Option (Option ArenaBlock) :=
  match answer with
  | none => some none
  | some addr =>
      if Grants taken (sizeofArenaBlock + size) addr then
        some (some { id := id, addr := addr, size := size, used := 0 })
      else none

/-- `arena_create_with_quota`, with memory at `addr`. -/
def createWithQuota (initialSize quota addr : UInt64) : Option Arena :=
  let initialSize := if initialSize = 0 then memArenaDefaultSize else initialSize
  let initialSize := if initialSize > memArenaMaxSize then memArenaMaxSize else initialSize
  (blockCreate [] 0 initialSize (some addr)).bind fun block =>
    block.map fun block =>
      { before := []
        current := block
        after := []
        lost := []
        totalAllocated := initialSize
        totalUsed := 0
        blockCount := 1
        defaultBlockSize := initialSize
        quota := if quota > 0 then quota else 0
        quotaEnabled := quota > 0
        allocCount := 0
        peakUsage := 0
        created := 1 }

variable (arena : Arena)

/-- The quota leaves no room for `size` bytes more. -/
def overQuota (size : UInt64) : Bool :=
  arena.quotaEnabled && arena.totalUsed + size > arena.quota

/-- The statistics of an allocation. -/
def count (size : UInt64) : Arena :=
  let totalUsed := arena.totalUsed + size
  { arena with
    totalUsed := totalUsed
    allocCount := arena.allocCount + 1
    peakUsage := if totalUsed > arena.peakUsage then totalUsed else arena.peakUsage }

/-- The size of a new block. -/
def newSize (size : UInt64) : UInt64 :=
  if size > arena.defaultBlockSize then size * 2 else arena.defaultBlockSize

/-- The mark of the current block moves on. -/
def bump (size : UInt64) : Arena :=
  { arena with current := { arena.current with used := arena.current.used + size } }.count size

/-- `block->next = new_block` lets go of what was behind the current block. -/
def extend (size : UInt64) (newBlock : ArenaBlock) : Arena :=
  { arena with
    before := arena.before ++ [arena.current]
    current := { newBlock with used := size }
    after := []
    lost := arena.after ++ arena.lost
    totalAllocated := arena.totalAllocated + newBlock.size
    blockCount := arena.blockCount + 1
    created := arena.created + 1 }.count size

/-- `arena_alloc`: the arena, and a pointer if it is not `NULL`. -/
def alloc (size : UInt64) (answer : Option UInt64) : Option (Arena × Option UInt64) :=
  if size = 0 then some (arena, none)
  else
    let size := alignUp size memAlignment
    if arena.overQuota size then some (arena, none)
    else if arena.current.used + size ≤ arena.current.size then
      some (arena.bump size, some (arena.current.data + arena.current.used))
    else
      (blockCreate arena.blocks arena.created (arena.newSize size) answer).map fun newBlock =>
        match newBlock with
        | none => (arena, none)
        | some newBlock => (arena.extend size newBlock, some newBlock.data)

/-- `arena_alloc_aligned` -/
def allocAligned (size alignment : UInt64) (answer : Option UInt64) :
    Option (Arena × Option UInt64) :=
  if size = 0 then some (arena, none)
  else
    let alignment := if alignment &&& (alignment - 1) ≠ 0 then memAlignment else alignment
    (arena.alloc (size + alignment) answer).map fun (arena, ptr) =>
      (arena, ptr.bind fun addr =>
        let aligned := (addr + alignment - 1) &&& ~~~(alignment - 1)
        if aligned = 0 then none else some aligned)

/-- The chain from its first block on, with this one current. -/
def atFirst (chain : List ArenaBlock) : Arena :=
  match chain with
  | [] => arena
  | first :: rest => { arena with before := [], current := first, after := rest }

/-- `arena_reset` -/
def reset : Arena :=
  { arena.atFirst (arena.chain.map fun block => { block with used := 0 }) with
    totalUsed := 0
    allocCount := 0 }

/-- The blocks are freed, and no longer counted. -/
def destroy (freed : List ArenaBlock) : Arena :=
  freed.foldl (fun arena block =>
    { arena with
      totalAllocated := arena.totalAllocated - block.size
      blockCount := arena.blockCount - 1 }) arena

/-- `arena_clear` -/
def clear : Arena :=
  match arena.chain with
  | [] => arena
  | first :: rest =>
      { arena.destroy rest with
        before := []
        current := { first with used := 0 }
        after := []
        totalUsed := 0 }

end Arena

/-- `ArenaCheckpoint` -/
structure ArenaCheckpoint where
  block : Nat
  used : UInt64
  deriving DecidableEq

namespace Arena

variable (arena : Arena)

def checkpoint : ArenaCheckpoint where
  block := arena.current.id
  used := arena.current.used

/-- The chain cut at the block with this number. -/
def splitAt (id : Nat) : List ArenaBlock → Option (List ArenaBlock × ArenaBlock × List ArenaBlock)
  | [] => none
  | block :: chain =>
      if block.id = id then some ([], block, chain)
      else (splitAt id chain).map fun (before, found, after) => (block :: before, found, after)

/-- `arena_restore`; nothing is returned for a block that is not in the chain. -/
def restore (checkpoint : ArenaCheckpoint) : Option Arena :=
  (splitAt checkpoint.block arena.chain).map fun (before, block, after) =>
    let block := { block with used := checkpoint.used }
    { arena.destroy after with
      before := before
      current := block
      after := []
      totalUsed := (before ++ [block]).foldl (fun total block => total + block.used) 0 }

end Arena

/-! ## Runs -/

/-- What a call of `arena_alloc` or `arena_alloc_aligned` was given, and what it asked for. -/
structure Allocation where
  region : Region
  alignment : Nat
  deriving DecidableEq

inductive ArenaCall
  | alloc (size : UInt64) (answer : Option UInt64)
  /-- `arena_alloc_aligned` to `2 ^ k`. -/
  | allocAligned (size : UInt64) (k : Fin 64) (answer : Option UInt64)
  | reset
  | clear
  | checkpoint
  /-- `arena_restore` of the `i`-th last checkpoint. -/
  | restore (i : Nat)

/-- An arena, the checkpoints its user has, and the allocations that are still live. -/
structure ArenaRun where
  arena : Arena
  checkpoints : List ArenaCheckpoint
  live : List Allocation

namespace ArenaRun

variable (s : ArenaRun)

/-- The allocation lies below the mark of a block. -/
def Kept (arena : Arena) (allocation : Allocation) : Prop :=
  ∃ block ∈ arena.chain,
    allocation.region.Inside { base := block.data.toNat, len := block.used.toNat }

instance (arena : Arena) (allocation : Allocation) : Decidable (Kept arena allocation) :=
  inferInstanceAs (Decidable (∃ _, _ ∧ _))

/-- The arena after an allocation, and the allocation unless it is `NULL`. -/
def allocated (size : UInt64) (alignment : Nat) (r : Arena × Option UInt64) : ArenaRun :=
  { s with
    arena := r.1
    live := (r.2.toList.map fun ptr =>
      { region := { base := ptr.toNat, len := size.toNat }, alignment := alignment }) ++ s.live }

/-- One call; a checkpoint is restored only as long as its block is in the chain. -/
def step : ArenaCall → Option ArenaRun
  | .alloc size answer => (s.arena.alloc size answer).map (s.allocated size 1)
  | .allocAligned size k answer =>
      (s.arena.allocAligned size (UInt64.ofNat (2 ^ k.val)) answer).map
        (s.allocated size (2 ^ k.val))
  | .reset => some { s with arena := s.arena.reset, live := [] }
  | .clear => some { s with arena := s.arena.clear, live := [] }
  | .checkpoint => some { s with checkpoints := s.arena.checkpoint :: s.checkpoints }
  | .restore i =>
      match s.checkpoints[i]? with
      | none => some s
      | some checkpoint =>
          (s.arena.restore checkpoint).map fun arena =>
            { s with arena := arena, live := s.live.filter fun a => Kept arena a }

end ArenaRun

/-- A new arena. -/
def Arena.start (arena : Arena) : ArenaRun where
  arena := arena
  checkpoints := []
  live := []

/-! ## Rounding -/

/-- A mask of low bits takes off the remainder. -/
theorem and_not_mask (x : BitVec 64) {k : Nat} (hk : k < 64) :
    x &&& ~~~(BitVec.ofNat 64 (2 ^ k) - 1) = (x >>> k) <<< k := by
  have hmask : BitVec.ofNat 64 (2 ^ k) - 1 = BitVec.ofNat 64 (2 ^ k - 1) := by
    refine BitVec.eq_of_toNat_eq ?_
    have hlt : 2 ^ k < 2 ^ 64 := Nat.pow_lt_pow_right (by decide) hk
    have hpos := Nat.two_pow_pos k
    have hone : (1 : BitVec 64).toNat = 1 := rfl
    rw [BitVec.toNat_sub, hone]
    simp only [BitVec.toNat_ofNat]
    omega
  rw [hmask]
  refine BitVec.eq_of_getLsbD_eq fun i hi => ?_
  have hpow : (2 ^ k - 1).testBit i = decide (i < k) := Nat.testBit_two_pow_sub_one k i
  simp only [BitVec.getLsbD_and, BitVec.getLsbD_not, BitVec.getLsbD_shiftLeft,
    BitVec.getLsbD_ushiftRight, BitVec.getLsbD_ofNat, hpow]
  by_cases hik : i < k
  · simp [hik, hi]
  · rw [Nat.add_sub_cancel' (Nat.le_of_not_lt hik)]
    simp [hik, hi]

theorem toNat_and_not_mask (x : UInt64) {k : Nat} (hk : k < 64) :
    (x &&& ~~~(UInt64.ofNat (2 ^ k) - 1)).toNat = x.toNat / 2 ^ k * 2 ^ k := by
  change (x.toBitVec &&& ~~~(BitVec.ofNat 64 (2 ^ k) - 1)).toNat = _
  rw [and_not_mask _ hk, BitVec.toNat_shiftLeft, BitVec.toNat_ushiftRight,
    Nat.shiftRight_eq_div_pow, Nat.shiftLeft_eq, Nat.mod_eq_of_lt]
  · rfl
  · exact (Nat.div_mul_le_self _ _).trans_lt x.toBitVec.isLt

/-- `align_up` to 16 bytes goes back to 0 for the largest sizes. -/
theorem toNat_alignUp (size : UInt64) :
    (alignUp size memAlignment).toNat = (size.toNat + 15) % 2 ^ 64 / 16 * 16 := by
  have hsum : (size + memAlignment - 1).toNat = (size.toNat + 15) % 2 ^ 64 := by
    rw [UInt64.toNat_sub, UInt64.toNat_add]
    change (2 ^ 64 - 1 + (size.toNat + 16) % 2 ^ 64) % 2 ^ 64 = _
    omega
  have hmask := toNat_and_not_mask (size + memAlignment - 1) (k := 4) (by decide)
  rw [hsum] at hmask
  exact hmask

end Memory
end InventixDB
