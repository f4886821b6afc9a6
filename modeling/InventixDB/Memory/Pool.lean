import InventixDB.Memory.Arena
import InventixDB.Lib.FreeLists

/-!
# Pool — blocks of one size

A pool hands out the blocks of a piece of memory.  The free ones form a list that is threaded
through the blocks themselves.  When there is none left, the pool gets an expansion of the same
size, which is linked right behind it.
-/

namespace InventixDB
namespace Memory

open Lib

/-- The word at each address. -/
abbrev Words : Type :=
  UInt64 → UInt64

def sizeofPoolBlock : UInt64 := 8

def memPoolDefaultBlocks : UInt64 := 256

/-! ## One pool -/

/-- `MemPool`, without its link. -/
structure MemPool where
  memory : UInt64
  freeList : UInt64
  blockSize : UInt64
  blockCount : UInt64
  usedCount : UInt64
  totalSize : UInt64
  canExpand : Bool
  allocCount : UInt64
  freeCount : UInt64
  peakUsage : UInt64
  deriving DecidableEq

namespace MemPool

variable (pool : MemPool)

/-- What `malloc` has given for the pool. -/
def region : Region where
  base := pool.memory.toNat
  len := pool.totalSize.toNat

/-- The block with this number. -/
def block (i : Nat) : UInt64 :=
  pool.memory + UInt64.ofNat i * pool.blockSize

/-- The loop that puts the first `count` blocks into the free list, each in front of the others. -/
def buildFreeList : Nat → Words → Words × UInt64
  | 0, words => (words, 0)
  | i + 1, words =>
      let (words, freeList) := buildFreeList i words
      (Function.update words (pool.block i) freeList, pool.block i)

/-- The free list is built, for all blocks of the pool. -/
def rebuild (words : Words) : MemPool × Words :=
  let (words, freeList) := pool.buildFreeList pool.blockCount.toNat words
  ({ pool with freeList := freeList, usedCount := 0 }, words)

/-- `pool_owns` -/
def owns (ptr : UInt64) : Bool :=
  ptr ≥ pool.memory && ptr < pool.memory + pool.totalSize

end MemPool

/-- `malloc` can answer a call for `total` bytes with `addr`. -/
def Fresh (taken : List Region) (total addr : UInt64) : Prop :=
  0 < addr.toNat ∧ total.toNat < 2 ^ 63 ∧ addr.toNat + total.toNat < 2 ^ 64 ∧
    ∀ r ∈ taken, r.Apart { base := addr.toNat, len := total.toNat }

instance (taken : List Region) (total addr : UInt64) : Decidable (Fresh taken total addr) := by
  unfold Fresh
  infer_instance

/-- `pool_create_named`, with what `malloc` answers; nothing is returned for an answer that cannot
be. -/
def poolCreateNamed (taken : List Region) (words : Words) (blockSize blockCount : UInt64)
    (answer : Option UInt64) : Option (Option (MemPool × Words)) :=
  let blockSize := if blockSize < sizeofPoolBlock then sizeofPoolBlock else blockSize
  let blockSize := alignUp blockSize memAlignment
  let blockCount := if blockCount = 0 then memPoolDefaultBlocks else blockCount
  let total := blockSize * blockCount
  match answer with
  | none => some none
  | some memory =>
      if Fresh taken total memory then
        let pool : MemPool :=
          { memory := memory
            freeList := 0
            blockSize := blockSize
            blockCount := blockCount
            usedCount := 0
            totalSize := total
            canExpand := true
            allocCount := 0
            freeCount := 0
            peakUsage := 0 }
        some (some (pool.rebuild words))
      else none

/-! ## A pool and its expansions -/

/-- A root pool with the expansions it leads to, and the memory of their blocks. -/
structure Pool where
  root : MemPool
  expansions : List MemPool
  words : Words

namespace Pool

variable (pool : Pool)

def chain : List MemPool :=
  pool.root :: pool.expansions

/-- The first expansion with a free block gives it. -/
def takeExpansion (words : Words) : List MemPool → Option (List MemPool × UInt64)
  | [] => none
  | expansion :: rest =>
      if expansion.freeList ≠ 0 then
        some ({ expansion with
          freeList := words expansion.freeList
          usedCount := expansion.usedCount + 1 } :: rest, expansion.freeList)
      else (takeExpansion words rest).map fun (rest, block) => (expansion :: rest, block)

/-- `pool_alloc` up to where the pool needs to expand. -/
def take : Option (Pool × UInt64) :=
  let root := pool.root
  if root.freeList ≠ 0 then
    let usedCount := root.usedCount + 1
    some ({ pool with
      root := { root with
        freeList := pool.words root.freeList
        usedCount := usedCount
        allocCount := root.allocCount + 1
        peakUsage := if usedCount > root.peakUsage then usedCount else root.peakUsage } },
      root.freeList)
  else
    (takeExpansion pool.words pool.expansions).map fun (expansions, block) =>
      ({ pool with
        root := { root with allocCount := root.allocCount + 1 }
        expansions := expansions }, block)

/-- The pool is given what `pool_create_named` returns as its first expansion. -/
def expand (answer : Option UInt64) : Option (Option Pool) :=
  (poolCreateNamed (pool.chain.map MemPool.region) pool.words pool.root.blockSize
    pool.root.blockCount answer).map fun created =>
      created.map fun (newPool, words) =>
        { pool with
          expansions := { newPool with canExpand := false } :: pool.expansions
          words := words }

/-- `pool_alloc`, with what `malloc` answers one call after the other: the pool, and a block if it
is not `NULL`. -/
def alloc (pool : Pool) (answers : List (Option UInt64)) : Option (Pool × Option UInt64) :=
  match pool.take, answers with
  | some (pool, block), _ => some (pool, some block)
  | none, [] => if pool.root.canExpand then none else some (pool, none)
  | none, answer :: answers =>
      if pool.root.canExpand then
        (pool.expand answer).bind fun expanded =>
          match expanded with
          | none => some (pool, none)
          | some expanded => expanded.alloc answers
      else some (pool, none)

/-- The pool of the chain that owns the block gets it back. -/
def giveBack (words : Words) (ptr : UInt64) : List MemPool → List MemPool × Words
  | [] => ([], words)
  | owner :: rest =>
      if owner.owns ptr then
        ({ owner with
          freeList := ptr
          usedCount := owner.usedCount - 1
          freeCount := owner.freeCount + 1 } :: rest, Function.update words ptr owner.freeList)
      else
        let (rest, words) := giveBack words ptr rest
        (owner :: rest, words)

/-- `pool_free` -/
def free (ptr : UInt64) : Pool :=
  match giveBack pool.words ptr pool.chain with
  | ([], _) => pool
  | (root :: expansions, words) => { root := root, expansions := expansions, words := words }

/-- The loop of `pool_reset` over the expansions: each of them is reset with those behind it, which
come again when the loop goes on.  There are at most `n` of them. -/
def resetExpansions : Nat → List MemPool → Words → List MemPool × Words
  | n + 1, expansion :: rest, words =>
      let (expansion, words) := expansion.rebuild words
      let (rest, words) := resetExpansions n rest words
      let (rest, words) := resetExpansions n rest words
      (expansion :: rest, words)
  | _, expansions, words => (expansions, words)

/-- `pool_reset` -/
def reset : Pool :=
  let (root, words) := pool.root.rebuild pool.words
  let (expansions, words) := resetExpansions pool.expansions.length pool.expansions words
  { root := root, expansions := expansions, words := words }

/-- `pool_get_used` -/
def getUsed : UInt64 :=
  pool.expansions.foldl (fun total expansion => total + expansion.usedCount) pool.root.usedCount

/-- `pool_get_free` -/
def getFree : UInt64 :=
  pool.expansions.foldl
    (fun total expansion => total + (expansion.blockCount - expansion.usedCount))
    (pool.root.blockCount - pool.root.usedCount)

/-- How many blocks the pool and its expansions have. -/
def blockTotal : Nat :=
  (pool.chain.map fun pool => pool.blockCount.toNat).sum

end Pool

/-! ## Runs -/

inductive PoolCall
  | alloc (answers : List (Option UInt64))
  | free (ptr : UInt64)
  | reset
  /-- The user of a block writes its first word. -/
  | write (ptr word : UInt64)

/-- A pool, and the blocks that are allocated. -/
structure PoolRun where
  pool : Pool
  live : List UInt64

namespace PoolRun

variable (s : PoolRun)

/-- One call; only blocks that are allocated are freed, and written. -/
def step : PoolCall → Option PoolRun
  | .alloc answers =>
      (s.pool.alloc answers).map fun (pool, block) =>
        { pool := pool, live := block.toList ++ s.live }
  | .free ptr =>
      if ptr ∈ s.live then some { pool := s.pool.free ptr, live := s.live.erase ptr } else none
  | .reset => some { pool := s.pool.reset, live := [] }
  | .write ptr word =>
      if ptr ∈ s.live then
        some { s with pool := { s.pool with words := Function.update s.pool.words ptr word } }
      else none

end PoolRun

end Memory
end InventixDB
