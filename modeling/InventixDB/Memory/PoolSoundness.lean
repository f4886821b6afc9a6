import InventixDB.Memory.Pool
import InventixDB.Lib.Runs
import Mathlib.Algebra.BigOperators.Ring.List
import Mathlib.Algebra.Ring.Nat

/-!
# Soundness of pools

The blocks of a pool are shared between its free list and those that are allocated, unless the sizes
of its blocks have wrapped around when it was created.
-/

namespace InventixDB
namespace Memory

open Lib

namespace MemPool

variable {pool other : MemPool} {words : Words} {live : List UInt64} {ptr : UInt64}

/-! ## Where the blocks lie -/

variable (pool) in
/-- The blocks lie behind each other in the memory of the pool. -/
structure Laid : Prop where
  size_ge : 16 ≤ pool.blockSize.toNat
  total_eq : pool.totalSize.toNat = pool.blockCount.toNat * pool.blockSize.toNat
  base_pos : 0 < pool.memory.toNat
  stop_lt : pool.memory.toNat + pool.totalSize.toNat < 2 ^ 64

variable (pool) in
def blocks : List UInt64 :=
  (List.range pool.blockCount.toNat).map pool.block

variable (pool) in
/-- What no operation changes. -/
def shape : MemPool :=
  { pool with
    freeList := 0
    usedCount := 0
    canExpand := true
    allocCount := 0
    freeCount := 0
    peakUsage := 0 }

theorem Laid.of_shape (h : pool.shape.Laid) : pool.Laid :=
  ⟨h.size_ge, h.total_eq, h.base_pos, h.stop_lt⟩

theorem Laid.shape (h : pool.Laid) : pool.shape.Laid :=
  ⟨h.size_ge, h.total_eq, h.base_pos, h.stop_lt⟩

theorem Laid.end_le (h : pool.Laid) {i : Nat} (hi : i < pool.blockCount.toNat) :
    (i + 1) * pool.blockSize.toNat ≤ pool.totalSize.toNat := by
  rw [h.total_eq]
  exact Nat.mul_le_mul_right _ hi

theorem Laid.toNat_block (h : pool.Laid) {i : Nat} (hi : i < pool.blockCount.toNat) :
    (pool.block i).toNat = pool.memory.toNat + i * pool.blockSize.toNat := by
  have hend := h.end_le hi
  have hstop := h.stop_lt
  rw [Nat.add_mul, Nat.one_mul] at hend
  have hlt := pool.blockCount.toNat_lt
  rw [block, UInt64.toNat_add, UInt64.toNat_mul, UInt64.toNat_ofNat',
    Nat.mod_eq_of_lt (hi.trans hlt)]
  rw [Nat.mod_eq_of_lt (a := i * _) (by omega), Nat.mod_eq_of_lt (by omega)]

theorem Laid.block_ne_zero (h : pool.Laid) {i : Nat} (hi : i < pool.blockCount.toNat) :
    pool.block i ≠ 0 := by
  intro hzero
  have hblock := h.toNat_block hi
  have hbase := h.base_pos
  rw [hzero, UInt64.toNat_zero] at hblock
  omega

theorem Laid.block_inj (h : pool.Laid) {i j : Nat} (hi : i < pool.blockCount.toNat)
    (hj : j < pool.blockCount.toNat) (hsame : pool.block i = pool.block j) : i = j := by
  have hpos := h.size_ge
  have hoffsets := congrArg UInt64.toNat hsame
  rw [h.toNat_block hi, h.toNat_block hj, Nat.add_left_cancel_iff] at hoffsets
  exact Nat.eq_of_mul_eq_mul_right (by omega) hoffsets

theorem Laid.blocks_nodup (h : pool.Laid) : pool.blocks.Nodup := by
  refine List.Nodup.map_on (fun i hi j hj => ?_) List.nodup_range
  exact h.block_inj (List.mem_range.mp hi) (List.mem_range.mp hj)

theorem Laid.owns_iff (h : pool.Laid) : pool.owns ptr = true ↔
    pool.memory.toNat ≤ ptr.toNat ∧ ptr.toNat < pool.memory.toNat + pool.totalSize.toNat := by
  rw [owns, Bool.and_eq_true, decide_eq_true_iff, decide_eq_true_iff, ge_iff_le,
    UInt64.le_iff_toNat_le, UInt64.lt_iff_toNat_lt, UInt64.toNat_add, Nat.mod_eq_of_lt h.stop_lt]

theorem Laid.owns_block (h : pool.Laid) {block : UInt64} (hblock : block ∈ pool.blocks) :
    pool.owns block = true := by
  obtain ⟨i, hi, rfl⟩ := List.mem_map.mp hblock
  have hi := List.mem_range.mp hi
  have hend := h.end_le hi
  have hsize := h.size_ge
  rw [Nat.add_mul, Nat.one_mul] at hend
  rw [h.owns_iff, h.toNat_block hi]
  omega

/-- Pools that lie apart own nothing together. -/
theorem Laid.owns_apart (h : pool.Laid) (hother : other.Laid)
    (hapart : pool.region.Apart other.region) (howns : pool.owns ptr = true) :
    other.owns ptr = false := by
  rw [Bool.eq_false_iff]
  intro howns'
  have hin := h.owns_iff.mp howns
  have hin' := hother.owns_iff.mp howns'
  rcases hapart with hbefore | hbehind
  · have hstop : pool.memory.toNat + pool.totalSize.toNat ≤ other.memory.toNat := hbefore
    omega
  · have hstop : other.memory.toNat + other.totalSize.toNat ≤ pool.memory.toNat := hbehind
    omega

/-! ## Building the free list -/

theorem Laid.buildFreeList_spec (h : pool.Laid) (words : Words) {n : Nat}
    (hn : n ≤ pool.blockCount.toNat) :
    Threaded 0 (pool.buildFreeList n words).1 (pool.buildFreeList n words).2
      ((List.range n).reverse.map pool.block) ∧
    ∀ ptr, pool.owns ptr = false → (pool.buildFreeList n words).1 ptr = words ptr := by
  induction n with
  | zero => exact ⟨rfl, fun _ _ => rfl⟩
  | succ n ih =>
      obtain ⟨hthreaded, hframe⟩ := ih (Nat.le_of_succ_le hn)
      have hnew : pool.block n ∉ (List.range n).reverse.map pool.block := by
        intro hmem
        obtain ⟨i, hi, hsame⟩ := List.mem_map.mp hmem
        have hi := List.mem_range.mp (List.mem_reverse.mp hi)
        exact absurd (h.block_inj (hi.trans hn) hn hsame) (Nat.ne_of_lt hi)
      constructor
      · rw [List.range_succ, List.reverse_append, List.reverse_singleton, List.singleton_append,
          List.map_cons]
        exact hthreaded.push hnew (h.block_ne_zero hn)
      · intro ptr hptr
        have hother : ptr ≠ pool.block n := by
          rintro rfl
          have hmem : pool.block n ∈ pool.blocks := List.mem_map_of_mem (List.mem_range.mpr hn)
          rw [h.owns_block hmem] at hptr
          cases hptr
        exact (Function.update_of_ne hother _ _).trans (hframe ptr hptr)

/-! ## Blocks in the free list and blocks that are allocated -/

/-- Each block of the pool is in its free list or allocated, and those are counted. -/
def Shares (words : Words) (live : List UInt64) (pool : MemPool) : Prop :=
  ∃ free, Threaded 0 words pool.freeList free ∧ (free ++ live.filter pool.owns).Perm pool.blocks ∧
    pool.usedCount.toNat = (live.filter pool.owns).length

theorem Laid.rebuild_spec (h : pool.Laid) (words : Words) :
    (pool.rebuild words).1.shape = pool.shape ∧
    (pool.rebuild words).1.Shares (pool.rebuild words).2 [] ∧
    ∀ ptr, pool.owns ptr = false → (pool.rebuild words).2 ptr = words ptr := by
  obtain ⟨hthreaded, hframe⟩ := h.buildFreeList_spec words le_rfl
  refine ⟨rfl, ⟨_, hthreaded, ?_, rfl⟩, hframe⟩
  rw [List.filter_nil, List.append_nil]
  exact (List.reverse_perm _).map _

/-- A free block is not allocated. -/
theorem Laid.not_mem_live (hlaid : pool.Laid) {free : List UInt64}
    (hperm : (free ++ live.filter pool.owns).Perm pool.blocks) {block : UInt64}
    (hblock : block ∈ free) : block ∉ live := by
  intro hlive
  have hmem := hperm.mem_iff.mp (List.mem_append_left _ hblock)
  have hnodup := hperm.nodup_iff.mpr hlaid.blocks_nodup
  exact List.disjoint_of_nodup_append hnodup hblock
    (List.mem_filter.mpr ⟨hlive, hlaid.owns_block hmem⟩)

theorem length_blocks (pool : MemPool) : pool.blocks.length = pool.blockCount.toNat := by
  rw [blocks, List.length_map, List.length_range]

namespace Shares

/-- The first free block is allocated. -/
theorem pop (h : pool.Shares words live) (hlaid : pool.Laid) (hfree : pool.freeList ≠ 0)
    (allocCount peakUsage : UInt64) : pool.freeList ∉ live ∧ pool.owns pool.freeList = true ∧
      Shares words (pool.freeList :: live)
        { pool with
          freeList := words pool.freeList
          usedCount := pool.usedCount + 1
          allocCount := allocCount
          peakUsage := peakUsage } := by
  obtain ⟨free, hthreaded, hperm, hused⟩ := h
  obtain ⟨rest, rfl, hrest⟩ := hthreaded.eq_cons hfree
  have howns : pool.owns pool.freeList = true :=
    hlaid.owns_block (hperm.mem_iff.mp (List.mem_append_left _ List.mem_cons_self))
  refine ⟨hlaid.not_mem_live hperm List.mem_cons_self, howns, rest, hrest, ?_, ?_⟩
  · change (rest ++ (pool.freeList :: live).filter pool.owns).Perm pool.blocks
    rw [List.filter_cons_of_pos howns]
    exact List.perm_middle.trans hperm
  · change (pool.usedCount + 1).toNat = ((pool.freeList :: live).filter pool.owns).length
    have hlength := hperm.length_eq
    rw [length_blocks, List.length_append, List.length_cons] at hlength
    have hlt := pool.blockCount.toNat_lt
    rw [List.filter_cons_of_pos howns, List.length_cons, UInt64.toNat_add, ← hused]
    change (pool.usedCount.toNat + 1) % 2 ^ 64 = _
    omega

theorem used_le (h : pool.Shares words live) : pool.usedCount ≤ pool.blockCount := by
  obtain ⟨free, -, hperm, hused⟩ := h
  have hlength := hperm.length_eq
  rw [length_blocks, List.length_append] at hlength
  rw [UInt64.le_iff_toNat_le]
  omega

theorem cons_other (h : pool.Shares words live) (hother : pool.owns ptr = false) :
    pool.Shares words (ptr :: live) := by
  rw [Shares, List.filter_cons_of_neg (by rw [hother]; exact Bool.false_ne_true)]
  exact h

/-- What is not in the memory of the pool can change. -/
theorem frame (h : pool.Shares words live) (hlaid : pool.Laid) {words' : Words}
    (hsame : ∀ ptr, pool.owns ptr = true → words' ptr = words ptr) : pool.Shares words' live := by
  obtain ⟨free, hthreaded, hperm, hused⟩ := h
  refine ⟨free, hthreaded.congr fun block hblock => hsame block ?_, hperm, hused⟩
  exact hlaid.owns_block (hperm.mem_iff.mp (List.mem_append_left _ hblock))

/-- A block that is allocated can be written. -/
theorem write (h : pool.Shares words live) (hlaid : pool.Laid) (hptr : ptr ∈ live)
    (word : UInt64) : pool.Shares (Function.update words ptr word) live := by
  obtain ⟨free, hthreaded, hperm, hused⟩ := h
  refine ⟨free, hthreaded.update (fun hmem => ?_) word, hperm, hused⟩
  exact hlaid.not_mem_live hperm hmem hptr

/-- A block that is allocated is put in front of the free list. -/
theorem push (h : pool.Shares words live) (hlaid : pool.Laid) (hptr : ptr ∈ live)
    (howns : pool.owns ptr = true) :
    Shares (Function.update words ptr pool.freeList) (live.erase ptr)
      { pool with
        freeList := ptr
        usedCount := pool.usedCount - 1
        freeCount := pool.freeCount + 1 } := by
  obtain ⟨free, hthreaded, hperm, hused⟩ := h
  have herase : (live.filter pool.owns).Perm (ptr :: (live.erase ptr).filter pool.owns) := by
    rw [← List.filter_cons_of_pos howns]
    exact (List.perm_cons_erase hptr).filter _
  have hnonzero : ptr ≠ 0 := by
    rintro rfl
    have hin := (hlaid.owns_iff.mp howns).1
    have hbase := hlaid.base_pos
    rw [UInt64.toNat_zero] at hin
    omega
  refine ⟨ptr :: free, hthreaded.push (fun hfree => ?_) hnonzero, ?_, ?_⟩
  · exact hlaid.not_mem_live hperm hfree hptr
  · change (ptr :: free ++ (live.erase ptr).filter pool.owns).Perm pool.blocks
    exact (List.perm_middle.symm.trans (herase.symm.append_left free)).trans hperm
  · change (pool.usedCount - 1).toNat = ((live.erase ptr).filter pool.owns).length
    have hlength := herase.length_eq
    rw [List.length_cons] at hlength
    rw [UInt64.toNat_sub_of_le, hused, hlength]
    · rfl
    · rw [UInt64.le_iff_toNat_le, hused, hlength]
      exact Nat.le_add_left _ _

theorem erase_other (h : pool.Shares words live) (hother : pool.owns ptr = false) :
    pool.Shares words (live.erase ptr) := by
  obtain ⟨free, hthreaded, hperm, hused⟩ := h
  have hsame : ((live.erase ptr).filter pool.owns).Perm (live.filter pool.owns) := by
    by_cases hptr : ptr ∈ live
    · have herase := (List.perm_cons_erase hptr).filter pool.owns
      rw [List.filter_cons_of_neg (by rw [hother]; exact Bool.false_ne_true)] at herase
      exact herase.symm
    · rw [List.erase_of_not_mem hptr]
  exact ⟨free, hthreaded, (hsame.append_left free).trans hperm, hused.trans hsame.length_eq.symm⟩

end Shares

end MemPool

/-! ## Chains of pools -/

namespace Pool

open MemPool

variable {pools pools' : List MemPool} {words : Words} {live : List UInt64} {ptr block : UInt64}

/-- The pools lie apart from each other. -/
structure Placed (shapes : List MemPool) : Prop where
  laid : ∀ pool ∈ shapes, pool.Laid
  apart : shapes.Pairwise fun pool other => pool.region.Apart other.region

theorem Placed.tail {pool : MemPool} {shapes : List MemPool} (h : Placed (pool :: shapes)) :
    Placed shapes where
  laid other hother := h.laid other (List.mem_cons_of_mem _ hother)
  apart := (List.pairwise_cons.mp h.apart).2

theorem Placed.head {pool : MemPool} (h : Placed ((pool :: pools).map shape)) : pool.Laid :=
  .of_shape (h.laid _ List.mem_cons_self)

theorem Placed.laid_of_mem {pool : MemPool} (h : Placed (pools.map shape)) (hpool : pool ∈ pools) :
    pool.Laid :=
  .of_shape (h.laid _ (List.mem_map_of_mem hpool))

/-- What the first pool owns, no other one does. -/
theorem Placed.owns_head {pool other : MemPool} (h : Placed ((pool :: pools).map shape))
    (howns : pool.owns ptr = true) (hother : other ∈ pools) : other.owns ptr = false := by
  have hlaid : other.Laid := h.tail.laid_of_mem hother
  have hapart := (List.pairwise_cons.mp h.apart).1 other.shape (List.mem_map_of_mem hother)
  exact h.head.owns_apart hlaid hapart howns

theorem Placed.owns_tail {pool other : MemPool} (h : Placed ((pool :: pools).map shape))
    (hother : other ∈ pools) (howns : other.owns ptr = true) : pool.owns ptr = false := by
  rw [Bool.eq_false_iff]
  intro hpool
  rw [h.owns_head hpool hother] at howns
  cases howns

/-- Pools of the same shapes own the same. -/
theorem owns_of_shapes {p : MemPool} (hshapes : pools.map shape = pools'.map shape)
    (hp : p ∈ pools) : ∃ q ∈ pools', q.owns = p.owns := by
  have hmem : p.shape ∈ pools'.map shape := by
    rw [← hshapes]
    exact List.mem_map_of_mem hp
  obtain ⟨q, hq, hsame⟩ := List.mem_map.mp hmem
  have howns : q.shape.owns = p.shape.owns := by rw [hsame]
  exact ⟨q, hq, howns⟩

/-! ## Allocating -/

theorem takeExpansion_spec (hplaced : Placed (pools.map shape))
    (hshares : ∀ pool ∈ pools, pool.Shares words live)
    (htake : takeExpansion words pools = some (pools', block)) :
    pools'.map shape = pools.map shape ∧ block ∉ live ∧
      (∃ pool ∈ pools, pool.owns block = true) ∧
      ∀ pool ∈ pools', pool.Shares words (block :: live) := by
  induction pools generalizing pools' with
  | nil => cases htake
  | cons pool pools ih =>
      obtain ⟨hpool, hrest⟩ := List.forall_mem_cons.mp hshares
      rw [takeExpansion] at htake
      split at htake
      · rename_i hfree
        cases htake
        obtain ⟨hfresh, howns, hpop⟩ := hpool.pop hplaced.head hfree pool.allocCount pool.peakUsage
        refine ⟨rfl, hfresh, ⟨pool, List.mem_cons_self, howns⟩, ?_⟩
        refine List.forall_mem_cons.mpr ⟨hpop, fun other hother => ?_⟩
        exact (hrest other hother).cons_other (hplaced.owns_head howns hother)
      · obtain ⟨⟨taken, found⟩, htaken, hpair⟩ := Option.map_eq_some_iff.mp htake
        cases hpair
        obtain ⟨hsame, hfresh, ⟨owner, howner, howns⟩, hall⟩ := ih hplaced.tail hrest htaken
        refine ⟨congrArg (pool.shape :: ·) hsame, hfresh,
          ⟨owner, List.mem_cons_of_mem _ howner, howns⟩, ?_⟩
        exact List.forall_mem_cons.mpr
          ⟨hpool.cons_other (hplaced.owns_tail howner howns), hall⟩

theorem takeExpansion_eq_none : takeExpansion words pools = none ↔
    ∀ pool ∈ pools, pool.freeList = 0 := by
  induction pools with
  | nil => simp [takeExpansion]
  | cons pool pools ih =>
      rw [takeExpansion, List.forall_mem_cons]
      split
      · rename_i hfree
        exact iff_of_false (by simp) fun hall => hfree hall.1
      · rename_i hfree
        rw [Option.map_eq_none_iff, ih]
        exact (and_iff_right (not_not.mp hfree)).symm

/-- `pool_alloc` with a free block. -/
theorem take_spec {pool after : Pool} (hplaced : Placed (pool.chain.map shape))
    (hshares : ∀ p ∈ pool.chain, p.Shares pool.words live)
    (htake : pool.take = some (after, block)) :
    after.chain.map shape = pool.chain.map shape ∧ after.words = pool.words ∧
      after.root.canExpand = pool.root.canExpand ∧ block ∉ live ∧
      (∃ p ∈ pool.chain, p.owns block = true) ∧
      ∀ p ∈ after.chain, p.Shares pool.words (block :: live) := by
  obtain ⟨hroot, hrest⟩ := List.forall_mem_cons.mp hshares
  rw [take] at htake
  dsimp only at htake
  split at htake
  · rename_i hfree
    cases htake
    obtain ⟨hfresh, howns, hpop⟩ := hroot.pop hplaced.head hfree (pool.root.allocCount + 1)
      (if pool.root.usedCount + 1 > pool.root.peakUsage then pool.root.usedCount + 1
        else pool.root.peakUsage)
    refine ⟨rfl, rfl, rfl, hfresh, ⟨pool.root, List.mem_cons_self, howns⟩, ?_⟩
    refine List.forall_mem_cons.mpr ⟨hpop, fun other hother => ?_⟩
    exact (hrest other hother).cons_other (hplaced.owns_head howns hother)
  · obtain ⟨⟨taken, found⟩, htaken, hpair⟩ := Option.map_eq_some_iff.mp htake
    cases hpair
    obtain ⟨hsame, hfresh, ⟨owner, howner, howns⟩, hall⟩ :=
      takeExpansion_spec hplaced.tail hrest htaken
    refine ⟨congrArg (pool.root.shape :: ·) hsame, rfl, rfl, hfresh,
      ⟨owner, List.mem_cons_of_mem _ howner, howns⟩, ?_⟩
    exact List.forall_mem_cons.mpr ⟨hroot.cons_other (hplaced.owns_tail howner howns), hall⟩

/-! ## Creating and expanding -/

/-- The bytes of a block. -/
def roundedSize (blockSize : UInt64) : Nat :=
  (max blockSize.toNat 8 + 15) / 16 * 16

/-- The number of blocks. -/
def givenCount (blockCount : UInt64) : Nat :=
  if blockCount = 0 then 256 else blockCount.toNat

/-- Neither rounding up the size of a block nor the product with their number wraps around. -/
def SizesFit (blockSize blockCount : UInt64) : Prop :=
  blockSize.toNat + 15 < 2 ^ 64 ∧ roundedSize blockSize * givenCount blockCount < 2 ^ 64

instance (blockSize blockCount : UInt64) : Decidable (SizesFit blockSize blockCount) :=
  inferInstanceAs (Decidable (_ ∧ _))

theorem toNat_rounded {blockSize : UInt64} (hfits : blockSize.toNat + 15 < 2 ^ 64) :
    (alignUp (if blockSize < sizeofPoolBlock then sizeofPoolBlock else blockSize)
      memAlignment).toNat = roundedSize blockSize := by
  have hmax : (if blockSize < sizeofPoolBlock then sizeofPoolBlock else blockSize).toNat
      = max blockSize.toNat 8 := by
    split
    · rename_i hsmall
      have hlt : blockSize.toNat < 8 := UInt64.lt_iff_toNat_lt.mp hsmall
      change 8 = _
      omega
    · rename_i hlarge
      have hle : 8 ≤ blockSize.toNat := UInt64.le_iff_toNat_le.mp (UInt64.not_lt.mp hlarge)
      omega
  rw [toNat_alignUp, hmax, roundedSize, Nat.mod_eq_of_lt (by omega)]

theorem toNat_givenCount (blockCount : UInt64) :
    (if blockCount = 0 then memPoolDefaultBlocks else blockCount).toNat
      = givenCount blockCount := by
  unfold givenCount
  split <;> rfl

theorem givenCount_pos (blockCount : UInt64) : 0 < givenCount blockCount := by
  unfold givenCount
  split
  · exact Nat.succ_pos _
  · rename_i hzero
    exact Nat.pos_of_ne_zero fun hsame => hzero (UInt64.toNat_inj.mp hsame)

/-- `pool_create_named` -/
theorem poolCreateNamed_spec {taken : List Region} {words words' : Words}
    {blockSize blockCount : UInt64} {answer : Option UInt64} {pool : MemPool}
    (hfits : SizesFit blockSize blockCount)
    (hcreate : poolCreateNamed taken words blockSize blockCount answer
      = some (some (pool, words'))) :
    pool.Laid ∧ (∀ r ∈ taken, r.Apart pool.region) ∧ pool.Shares words' [] ∧
      (∀ ptr, pool.owns ptr = false → words' ptr = words ptr) ∧
      pool.blockSize.toNat = roundedSize blockSize ∧
      pool.blockCount.toNat = givenCount blockCount ∧ pool.canExpand = true := by
  obtain ⟨hround, hproduct⟩ := hfits
  have hsize := toNat_rounded hround
  have hcount := toNat_givenCount blockCount
  unfold poolCreateNamed at hcreate
  cases answer with
  | none => cases hcreate
  | some memory =>
      dsimp only at hcreate
      generalize alignUp (if blockSize < sizeofPoolBlock then sizeofPoolBlock else blockSize)
        memAlignment = size at hsize hcreate
      generalize (if blockCount = 0 then memPoolDefaultBlocks else blockCount) = count
        at hcount hcreate
      split at hcreate
      · rename_i hfresh
        obtain ⟨hpos, -, hstop, hapart⟩ := hfresh
        rw [Option.some_inj, Option.some_inj] at hcreate
        generalize hnew : MemPool.mk memory 0 size count 0 (size * count) true 0 0 0 = new
          at hcreate
        have htotal : (size * count).toNat = count.toNat * size.toNat := by
          rw [UInt64.toNat_mul, Nat.mul_comm count.toNat]
          refine Nat.mod_eq_of_lt ?_
          rw [hsize, hcount]
          exact hproduct
        have hlaid : new.Laid := by
          subst hnew
          refine ⟨?_, htotal, hpos, hstop⟩
          change 16 ≤ size.toNat
          rw [hsize, roundedSize]
          omega
        obtain ⟨-, hshares, hframe⟩ := hlaid.rebuild_spec words
        obtain rfl : (new.rebuild words).1 = pool := congrArg Prod.fst hcreate
        obtain rfl : (new.rebuild words).2 = words' := congrArg Prod.snd hcreate
        refine ⟨.of_shape hlaid.shape, ?_, hshares, hframe, ?_⟩
        · subst hnew
          exact hapart
        · subst hnew
          exact ⟨hsize, hcount, rfl⟩
      · cases hcreate

/-- The pools share their blocks with those that are allocated. -/
structure Sharing (pool : Pool) (live : List UInt64) : Prop where
  placed : Placed (pool.chain.map shape)
  shares : ∀ p ∈ pool.chain, p.Shares pool.words live
  owned : ∀ block ∈ live, ∃ p ∈ pool.chain, p.owns block = true
  nodup : live.Nodup
  size_dvd : 16 ∣ pool.root.blockSize.toNat
  count_pos : 0 < pool.root.blockCount.toNat

variable {pool after : Pool}

theorem Sharing.sizesFit (h : pool.Sharing live) :
    SizesFit pool.root.blockSize pool.root.blockCount ∧
      roundedSize pool.root.blockSize = pool.root.blockSize.toNat ∧
      givenCount pool.root.blockCount = pool.root.blockCount.toNat := by
  have hlaid : pool.root.Laid := h.placed.head
  have hsize := hlaid.size_ge
  have htotal := hlaid.total_eq
  have hstop := hlaid.stop_lt
  have hdvd := h.size_dvd
  have hrounded : roundedSize pool.root.blockSize = pool.root.blockSize.toNat := by
    rw [roundedSize]
    omega
  have hgiven : givenCount pool.root.blockCount = pool.root.blockCount.toNat := by
    rw [givenCount, if_neg fun hzero => absurd h.count_pos (by rw [hzero]; decide)]
  refine ⟨⟨?_, ?_⟩, hrounded, hgiven⟩
  · have hlt := pool.root.blockSize.toNat_lt
    omega
  · rw [hrounded, hgiven, Nat.mul_comm, ← htotal]
    exact pool.root.totalSize.toNat_lt

/-- The pools stay where they are. -/
theorem Sharing.of_shapes {live' : List UInt64} (h : pool.Sharing live)
    (hshape : after.chain.map shape = pool.chain.map shape)
    (hshares : ∀ p ∈ after.chain, p.Shares after.words live')
    (howned : ∀ block ∈ live', ∃ p ∈ pool.chain, p.owns block = true) (hnodup : live'.Nodup) :
    after.Sharing live' := by
  have hroot : after.root.shape = pool.root.shape := (List.cons.inj hshape).1
  refine ⟨hshape ▸ h.placed, hshares, fun ptr hptr => ?_, hnodup, ?_, ?_⟩
  · obtain ⟨p, hp, howns⟩ := howned ptr hptr
    obtain ⟨q, hq, hsame⟩ := owns_of_shapes hshape.symm hp
    exact ⟨q, hq, (congrFun hsame ptr).trans howns⟩
  · have hsize : after.root.blockSize = pool.root.blockSize := congrArg (·.blockSize) hroot
    rw [hsize]
    exact h.size_dvd
  · have hcount : after.root.blockCount = pool.root.blockCount := congrArg (·.blockCount) hroot
    rw [hcount]
    exact h.count_pos

/-- An expansion brings free blocks. -/
theorem expand_spec (h : pool.Sharing live) {answer : Option UInt64}
    (hexpand : pool.expand answer = some (some after)) :
    after.Sharing live ∧ after.root = pool.root ∧ after.take ≠ none := by
  obtain ⟨hfits, -, hgiven⟩ := h.sizesFit
  obtain ⟨created, hcreate, hafter⟩ := Option.map_eq_some_iff.mp hexpand
  obtain ⟨⟨new, words⟩, rfl, rfl⟩ := Option.map_eq_some_iff.mp hafter
  obtain ⟨hlaid, hapart, hshares, hframe, -, hcount, -⟩ := poolCreateNamed_spec hfits hcreate
  have hother : ∀ p ∈ pool.chain, ∀ ptr, p.owns ptr = true → new.owns ptr = false := by
    intro p hp ptr howns
    have hregion := hapart _ (List.mem_map_of_mem hp)
    exact (h.placed.laid_of_mem hp).owns_apart hlaid hregion howns
  have hnone : live.filter new.owns = [] := by
    refine List.filter_eq_nil_iff.mpr fun block hblock howns => ?_
    obtain ⟨p, hp, howner⟩ := h.owned block hblock
    rw [hother p hp block howner] at howns
    cases howns
  have hold : ∀ p ∈ pool.chain, p.Shares words live := by
    intro p hp
    refine (h.shares p hp).frame (h.placed.laid_of_mem hp) fun ptr howns => ?_
    exact hframe ptr (hother p hp ptr howns)
  obtain ⟨hroot, hrest⟩ := List.forall_mem_cons.mp hold
  obtain ⟨free, hthreaded, hperm, hused⟩ := hshares
  have hfree : new.freeList ≠ 0 := by
    intro hnull
    rw [hnull] at hthreaded
    rw [hthreaded.eq_nil] at hperm
    have hlength := hperm.length_eq
    rw [length_blocks, hcount, hgiven] at hlength
    exact absurd hlength (Nat.ne_of_lt h.count_pos)
  refine ⟨⟨⟨?_, ?_⟩, ?_, ?_, h.nodup, h.size_dvd, h.count_pos⟩, rfl, ?_⟩
  · obtain ⟨hlaidRoot, hlaidRest⟩ := List.forall_mem_cons.mp h.placed.laid
    exact List.forall_mem_cons.mpr ⟨hlaidRoot, List.forall_mem_cons.mpr ⟨hlaid.shape, hlaidRest⟩⟩
  · obtain ⟨hapartRoot, hapartRest⟩ := List.pairwise_cons.mp h.placed.apart
    obtain ⟨hnewRoot, hnewRest⟩ := List.forall_mem_cons.mp hapart
    refine List.pairwise_cons.mpr ⟨List.forall_mem_cons.mpr ⟨hnewRoot, hapartRoot⟩,
      List.pairwise_cons.mpr ⟨List.forall_mem_map.mpr fun p hp => ?_, hapartRest⟩⟩
    exact (hnewRest _ (List.mem_map_of_mem hp)).symm
  · refine List.forall_mem_cons.mpr ⟨hroot, List.forall_mem_cons.mpr ⟨?_, hrest⟩⟩
    refine ⟨free, hthreaded, ?_, ?_⟩
    · change (free ++ live.filter new.owns).Perm new.blocks
      rw [hnone]
      exact hperm
    · change new.usedCount.toNat = (live.filter new.owns).length
      rw [hnone]
      exact hused
  · intro block hblock
    obtain ⟨p, hp, howns⟩ := h.owned block hblock
    refine ⟨p, ?_, howns⟩
    rcases List.mem_cons.mp hp with hfirst | hbehind
    · exact List.mem_cons.mpr (.inl hfirst)
    · exact List.mem_cons_of_mem _ (List.mem_cons_of_mem _ hbehind)
  · rw [take]
    dsimp only
    split
    · simp
    · rw [takeExpansion, if_pos hfree]
      simp

theorem take_sharing (h : pool.Sharing live) (htake : pool.take = some (after, block)) :
    after.Sharing (block :: live) ∧ block ∉ live := by
  obtain ⟨hshape, hwords, -, hfresh, howner, hshares⟩ := take_spec h.placed h.shares htake
  have howned : ∀ ptr ∈ block :: live, ∃ p ∈ pool.chain, p.owns ptr = true :=
    List.forall_mem_cons.mpr ⟨howner, h.owned⟩
  have hnodup := List.nodup_cons.mpr ⟨hfresh, h.nodup⟩
  exact ⟨h.of_shapes hshape (hwords ▸ hshares) howned hnodup, hfresh⟩

theorem alloc_of_take (htake : pool.take = some (after, block)) (answers : List (Option UInt64)) :
    pool.alloc answers = some (after, some block) := by
  unfold alloc
  rw [htake]

theorem alloc_of_full (htake : pool.take = none) :
    pool.alloc [] = if pool.root.canExpand then none else some (pool, none) := by
  unfold alloc
  rw [htake]

theorem alloc_cons_of_full (htake : pool.take = none) (answer : Option UInt64)
    (answers : List (Option UInt64)) : pool.alloc (answer :: answers) =
      if pool.root.canExpand then
        (pool.expand answer).bind fun expanded =>
          expanded.elim (some (pool, none)) fun expanded => expanded.alloc answers
      else some (pool, none) := by
  conv_lhs => unfold alloc
  rw [htake]
  dsimp only
  split
  · refine congrArg (Option.bind _) (funext fun expanded => ?_)
    cases expanded <;> rfl
  · rfl

/-- `pool_alloc` -/
theorem alloc_spec {pool : Pool} (h : pool.Sharing live) {answers : List (Option UInt64)}
    {result : Option UInt64} (halloc : pool.alloc answers = some (after, result)) :
    after.Sharing (result.toList ++ live) ∧ ∀ block ∈ result, block ∉ live := by
  cases htake : pool.take with
  | some taken =>
      rw [alloc_of_take htake] at halloc
      cases halloc
      obtain ⟨hsharing, hfresh⟩ := take_sharing h htake
      exact ⟨hsharing, by simpa using hfresh⟩
  | none =>
      have hrefused : some (pool, none) = some (after, result) →
          after.Sharing (result.toList ++ live) ∧ ∀ block ∈ result, block ∉ live := by
        intro hsame
        cases hsame
        exact ⟨h, by simp⟩
      cases answers with
      | nil =>
          rw [alloc_of_full htake] at halloc
          split at halloc
          · cases halloc
          · exact hrefused halloc
      | cons answer answers =>
          rw [alloc_cons_of_full htake] at halloc
          split at halloc
          · obtain ⟨expanded, hexpand, hrest⟩ := Option.bind_eq_some_iff.mp halloc
            cases expanded with
            | none => exact hrefused hrest
            | some expanded => exact alloc_spec (expand_spec h hexpand).1 hrest
          · exact hrefused halloc
termination_by answers

/-! ## Giving back -/

/-- `pool_free` of a block that is allocated. -/
theorem giveBack_spec (hplaced : Placed (pools.map shape))
    (hshares : ∀ p ∈ pools, p.Shares words live) (hptr : ptr ∈ live)
    (howner : ∃ p ∈ pools, p.owns ptr = true) :
    (giveBack words ptr pools).1.map shape = pools.map shape ∧
      (∃ word, (giveBack words ptr pools).2 = Function.update words ptr word) ∧
      ∀ p ∈ (giveBack words ptr pools).1,
        p.Shares (giveBack words ptr pools).2 (live.erase ptr) := by
  induction pools with
  | nil => simp at howner
  | cons p pools ih =>
      obtain ⟨hfirst, hrest⟩ := List.forall_mem_cons.mp hshares
      have hwrite : ∀ q : MemPool, q.Laid → q.owns ptr = false → q.Shares words live →
          ∀ word, q.Shares (Function.update words ptr word) (live.erase ptr) := by
        intro q hlaid howns hq word
        refine (hq.erase_other howns).frame hlaid fun other hother => ?_
        refine Function.update_of_ne ?_ _ _
        rintro rfl
        rw [howns] at hother
        cases hother
      cases howns : p.owns ptr with
      | true =>
          rw [giveBack, if_pos howns]
          refine ⟨rfl, ⟨_, rfl⟩, ?_⟩
          refine List.forall_mem_cons.mpr ⟨hfirst.push hplaced.head hptr howns, fun q hq => ?_⟩
          exact hwrite q (hplaced.tail.laid_of_mem hq) (hplaced.owns_head howns hq) (hrest q hq) _
      | false =>
          obtain ⟨q, hq, hqowns⟩ := howner
          have hin : q ∈ pools := by
            rcases List.mem_cons.mp hq with rfl | hin
            · rw [howns] at hqowns
              cases hqowns
            · exact hin
          obtain ⟨hshape, ⟨word, hwords⟩, hall⟩ := ih hplaced.tail hrest ⟨q, hin, hqowns⟩
          rw [giveBack, if_neg (by rw [howns]; exact Bool.false_ne_true)]
          refine ⟨congrArg (p.shape :: ·) hshape, ⟨word, hwords⟩, ?_⟩
          refine List.forall_mem_cons.mpr ⟨?_, hall⟩
          change p.Shares (giveBack words ptr pools).2 _
          rw [hwords]
          exact hwrite p hplaced.head howns hfirst word

/-! ## Resetting -/

theorem resetExpansions_cons (n : Nat) (p : MemPool) (rest : List MemPool) (words : Words) :
    resetExpansions (n + 1) (p :: rest) words =
      let rebuilt := p.rebuild words
      let once := resetExpansions n rest rebuilt.2
      let twice := resetExpansions n once.1 once.2
      (rebuilt.1 :: twice.1, twice.2) :=
  rfl

/-- Every expansion is rebuilt, however often. -/
theorem resetExpansions_spec {n : Nat} (words : Words) (hlength : pools.length ≤ n)
    (hplaced : Placed (pools.map shape)) :
    (resetExpansions n pools words).1.map shape = pools.map shape ∧
      (∀ p ∈ (resetExpansions n pools words).1, p.Shares (resetExpansions n pools words).2 []) ∧
      ∀ ptr, (∀ p ∈ pools, p.owns ptr = false) →
        (resetExpansions n pools words).2 ptr = words ptr := by
  induction n generalizing pools words with
  | zero =>
      cases List.length_eq_zero_iff.mp (Nat.le_zero.mp hlength)
      exact ⟨rfl, by simp [resetExpansions], fun _ _ => rfl⟩
  | succ n ih =>
      cases pools with
      | nil => exact ⟨rfl, by simp [resetExpansions], fun _ _ => rfl⟩
      | cons p rest =>
          have hlaid : p.Laid := hplaced.head
          obtain ⟨hshape, hshares, hframe⟩ := hlaid.rebuild_spec words
          rw [resetExpansions_cons]
          dsimp only
          generalize p.rebuild words = rebuilt at hshape hshares hframe ⊢
          obtain ⟨rebuilt, words₀⟩ := rebuilt
          -- The expansions behind this one are reset twice, to the same effect.
          have hrest : rest.length ≤ n := Nat.le_of_succ_le_succ hlength
          obtain ⟨hshape₁, -, hframe₁⟩ := ih words₀ hrest hplaced.tail
          generalize resetExpansions n rest words₀ = once at hshape₁ hframe₁ ⊢
          obtain ⟨once, words₁⟩ := once
          have honce : once.length ≤ n := by
            dsimp only at hshape₁
            have hlength := congrArg List.length hshape₁
            rw [List.length_map, List.length_map] at hlength
            omega
          obtain ⟨hshape₂, hshares₂, hframe₂⟩ := ih words₁ honce (hshape₁ ▸ hplaced.tail)
          generalize resetExpansions n once words₁ = twice at hshape₂ hshares₂ hframe₂ ⊢
          obtain ⟨twice, words₂⟩ := twice
          dsimp only at *
          have hsame : ∀ ptr, (∀ q ∈ rest, q.owns ptr = false) → words₂ ptr = words₀ ptr := by
            intro ptr howns
            rw [hframe₂ ptr fun q hq => ?_, hframe₁ ptr howns]
            obtain ⟨q', hq', hsame⟩ := owns_of_shapes hshape₁ hq
            rw [← hsame]
            exact howns q' hq'
          refine ⟨?_, List.forall_mem_cons.mpr ⟨?_, hshares₂⟩, fun ptr howns => ?_⟩
          · rw [List.map_cons, List.map_cons, hshape, hshape₂, hshape₁]
          · have howns : rebuilt.shape.owns = p.shape.owns := by rw [hshape]
            have hlaid' : rebuilt.Laid := .of_shape (hshape ▸ hlaid.shape)
            refine hshares.frame hlaid' fun ptr hptr => hsame ptr fun q hq => ?_
            exact hplaced.owns_head ((congrFun howns ptr).symm.trans hptr) hq
          · obtain ⟨hp, hothers⟩ := List.forall_mem_cons.mp howns
            rw [hsame ptr hothers, hframe ptr hp]

/-! ## All operations -/

/-- `pool_free` -/
theorem free_sharing (h : pool.Sharing live) (hptr : ptr ∈ live) :
    (pool.free ptr).Sharing (live.erase ptr) := by
  obtain ⟨hshape, -, hshares⟩ := giveBack_spec h.placed h.shares hptr (h.owned ptr hptr)
  have howned : ∀ block ∈ live.erase ptr, ∃ p ∈ pool.chain, p.owns block = true :=
    fun block hblock => h.owned block (List.mem_of_mem_erase hblock)
  unfold free
  generalize giveBack pool.words ptr pool.chain = given at hshape hshares ⊢
  obtain ⟨chain, words⟩ := given
  cases chain with
  | nil => cases hshape
  | cons root expansions => exact h.of_shapes hshape hshares howned (h.nodup.erase ptr)

/-- `pool_reset` -/
theorem reset_sharing (h : pool.Sharing live) : pool.reset.Sharing [] := by
  have hlaid : pool.root.Laid := h.placed.head
  obtain ⟨hshape, hshares, -⟩ := hlaid.rebuild_spec pool.words
  unfold reset
  generalize pool.root.rebuild pool.words = rebuilt at hshape hshares ⊢
  obtain ⟨root, words⟩ := rebuilt
  dsimp only
  obtain ⟨hshapes, hall, hframe⟩ :=
    resetExpansions_spec words (le_refl pool.expansions.length) h.placed.tail
  generalize resetExpansions pool.expansions.length pool.expansions words = expanded
    at hshapes hall hframe ⊢
  obtain ⟨expansions, words'⟩ := expanded
  dsimp only at *
  refine h.of_shapes ?_ (List.forall_mem_cons.mpr ⟨?_, hall⟩) (by simp) List.nodup_nil
  · change root.shape :: expansions.map shape = pool.root.shape :: pool.expansions.map shape
    rw [hshape, hshapes]
  · have howns : root.shape.owns = pool.root.shape.owns := by rw [hshape]
    have hlaid' : root.Laid := .of_shape (hshape ▸ hlaid.shape)
    refine hshares.frame hlaid' fun ptr hptr => hframe ptr fun q hq => ?_
    exact h.placed.owns_head ((congrFun howns ptr).symm.trans hptr) hq

/-- The user of a block writes it. -/
theorem write_sharing (h : pool.Sharing live) (hptr : ptr ∈ live) (word : UInt64) :
    Sharing { pool with words := Function.update pool.words ptr word } live := by
  refine h.of_shapes rfl (fun p hp => ?_) h.owned h.nodup
  exact (h.shares p hp).write (h.placed.laid_of_mem hp) hptr word

/-! ## Counters -/

theorem sum_owns (hplaced : Placed (pools.map shape))
    (howner : ∃ p ∈ pools, p.owns block = true) :
    (pools.map fun p => if p.owns block then 1 else 0).sum = 1 := by
  induction pools with
  | nil => simp at howner
  | cons p pools ih =>
      rw [List.map_cons, List.sum_cons]
      cases howns : p.owns block with
      | true =>
          have hzero : (pools.map fun p => if p.owns block then 1 else 0).sum = 0 := by
            refine List.sum_eq_zero (List.forall_mem_map.mpr fun q hq => ?_)
            rw [hplaced.owns_head howns hq]
            rfl
          rw [hzero]
          rfl
      | false =>
          obtain ⟨q, hq, hqowns⟩ := howner
          have hin : q ∈ pools := by
            refine (List.mem_cons.mp hq).resolve_left ?_
            rintro rfl
            rw [howns] at hqowns
            cases hqowns
          rw [ih hplaced.tail ⟨q, hin, hqowns⟩]
          rfl

/-- Each block that is allocated is counted by one pool. -/
theorem sum_length_filter (hplaced : Placed (pools.map shape))
    (howned : ∀ block ∈ live, ∃ p ∈ pools, p.owns block = true) :
    (pools.map fun p => (live.filter p.owns).length).sum = live.length := by
  induction live with
  | nil => exact List.sum_eq_zero (List.forall_mem_map.mpr fun p _ => rfl)
  | cons block live ih =>
      obtain ⟨hfirst, hrest⟩ := List.forall_mem_cons.mp howned
      have hcons : ∀ p : MemPool, ((block :: live).filter p.owns).length
          = (live.filter p.owns).length + if p.owns block then 1 else 0 := by
        intro p
        rw [List.filter_cons]
        split <;> rfl
      calc
        (pools.map fun p => ((block :: live).filter p.owns).length).sum
            = (pools.map fun p =>
                (live.filter p.owns).length + if p.owns block then 1 else 0).sum := by
          simp only [hcons]
        _ = (pools.map fun p => (live.filter p.owns).length).sum
            + (pools.map fun p => if p.owns block then 1 else 0).sum := List.sum_map_add
        _ = live.length + 1 := by rw [ih hrest, sum_owns hplaced hfirst]

/-- There are fewer blocks than addresses. -/
theorem Sharing.blockTotal_lt (h : pool.Sharing live) : pool.blockTotal < 2 ^ 64 := by
  have hregions : (pool.chain.map region).Pairwise Region.Apart := by
    have hapart := h.placed.apart
    rw [List.pairwise_map] at hapart ⊢
    exact hapart
  have hroom := Region.sum_len_le hregions (List.forall_mem_map.mpr fun p hp =>
    (h.placed.laid_of_mem hp).stop_lt.le)
  rw [List.map_map] at hroom
  have hle : (pool.chain.map fun p => 16 * p.blockCount.toNat).sum
      ≤ (pool.chain.map (Region.len ∘ region)).sum := by
    refine List.sum_le_sum fun p hp => ?_
    have hlaid := h.placed.laid_of_mem hp
    change _ ≤ p.totalSize.toNat
    rw [hlaid.total_eq, Nat.mul_comm]
    exact Nat.mul_le_mul_left _ hlaid.size_ge
  rw [List.sum_map_mul_left] at hle
  have htotal : (pool.chain.map fun p => p.blockCount.toNat).sum = pool.blockTotal := rfl
  omega

theorem Sharing.sum_used (h : pool.Sharing live) :
    (pool.chain.map fun p => p.usedCount.toNat).sum = live.length := by
  rw [← sum_length_filter h.placed h.owned]
  refine congrArg List.sum (List.map_congr_left fun p hp => ?_)
  obtain ⟨-, -, -, hused⟩ := h.shares p hp
  exact hused

theorem Sharing.sum_free (h : pool.Sharing live) : live.length +
    (pool.chain.map fun p => (p.blockCount - p.usedCount).toNat).sum = pool.blockTotal := by
  rw [← h.sum_used, ← List.sum_map_add]
  refine congrArg List.sum (List.map_congr_left fun p hp => ?_)
  have hle := (h.shares p hp).used_le
  rw [UInt64.toNat_sub_of_le _ _ hle]
  exact Nat.add_sub_cancel' (UInt64.le_iff_toNat_le.mp hle)

theorem Sharing.getUsed_eq (h : pool.Sharing live) : pool.getUsed.toNat = live.length := by
  have hlt := h.blockTotal_lt
  have hfree := h.sum_free
  rw [getUsed, toNat_foldl_add, ← h.sum_used, chain, List.map_cons, List.sum_cons]
  refine Nat.mod_eq_of_lt ?_
  have hused := h.sum_used
  rw [chain, List.map_cons, List.sum_cons] at hused
  omega

theorem Sharing.getUsed_add_getFree (h : pool.Sharing live) :
    pool.getUsed.toNat + pool.getFree.toNat = pool.blockTotal := by
  have hlt := h.blockTotal_lt
  have hfree := h.sum_free
  rw [h.getUsed_eq, ← hfree, getFree,
    toNat_foldl_add fun p : MemPool => p.blockCount - p.usedCount]
  rw [chain, List.map_cons, List.sum_cons] at hfree ⊢
  rw [Nat.mod_eq_of_lt (by omega)]

end Pool

/-! ## Runs -/

namespace PoolRun

open Pool

variable {s after : PoolRun} {call : PoolCall}

/-- No block is handed out that is allocated, and the counters are those of the blocks that are. -/
structure Exact (s : PoolRun) : Prop where
  fresh : ∀ answers after block, s.pool.alloc answers = some (after, some block) → block ∉ s.live
  used_eq : s.pool.getUsed.toNat = s.live.length
  total_eq : s.pool.getUsed.toNat + s.pool.getFree.toNat = s.pool.blockTotal

theorem exact_of_sharing (h : s.pool.Sharing s.live) : s.Exact where
  fresh _ _ block halloc := (alloc_spec h halloc).2 block rfl
  used_eq := h.getUsed_eq
  total_eq := h.getUsed_add_getFree

theorem step_sharing (h : s.pool.Sharing s.live) (hstep : s.step call = some after) :
    after.pool.Sharing after.live := by
  cases call with
  | alloc answers =>
      obtain ⟨⟨pool, block⟩, halloc, rfl⟩ := Option.map_eq_some_iff.mp hstep
      exact (alloc_spec h halloc).1
  | free ptr =>
      rw [step] at hstep
      split at hstep
      · rename_i hptr
        cases hstep
        exact free_sharing h hptr
      · cases hstep
  | reset =>
      cases hstep
      exact reset_sharing h
  | write ptr word =>
      rw [step] at hstep
      split at hstep
      · rename_i hptr
        cases hstep
        exact write_sharing h hptr word
      · cases hstep

/-- A new pool. -/
def start (root : MemPool) (words : Words) : PoolRun where
  pool := { root := root, expansions := [], words := words }
  live := []

theorem start_sharing {taken : List Region} {words words' : Words} {blockSize blockCount : UInt64}
    {answer : Option UInt64} {root : MemPool} (hfits : SizesFit blockSize blockCount)
    (hcreate : poolCreateNamed taken words blockSize blockCount answer
      = some (some (root, words'))) : (start root words').pool.Sharing [] := by
  obtain ⟨hlaid, -, hshares, -, hsize, hcount, -⟩ := poolCreateNamed_spec hfits hcreate
  refine ⟨⟨List.forall_mem_singleton.mpr hlaid.shape, List.pairwise_singleton _ _⟩,
    List.forall_mem_singleton.mpr hshares, by simp, List.nodup_nil, ?_, ?_⟩
  · change 16 ∣ root.blockSize.toNat
    rw [hsize]
    exact Nat.dvd_mul_left _ _
  · change 0 < root.blockCount.toNat
    rw [hcount]
    exact givenCount_pos blockCount

/-- No pool hands out a block that is allocated, and all count what they have, where no size wraps
around when they are created. -/
theorem stays_exact {taken : List Region} {words words' : Words} {blockSize blockCount : UInt64}
    {answer : Option UInt64} {root : MemPool} {calls : List PoolCall}
    (hfits : SizesFit blockSize blockCount)
    (hcreate : poolCreateNamed taken words blockSize blockCount answer
      = some (some (root, words'))) : Stays step Exact (start root words') calls := by
  have hsharing : Stays step (fun s => s.pool.Sharing s.live) (start root words') calls :=
    stays_of_invariant (fun s call after h hstep => step_sharing h hstep)
      (start_sharing hfits hcreate)
  exact hsharing.mono fun s h => exact_of_sharing h

theorem stays_exact_three : ∃ root words,
    poolCreateNamed [] (fun _ => 0) 100 3 (some 4096) = some (some (root, words)) ∧
      Stays step Exact (start root words)
        [.alloc [], .alloc [], .write 4208 1, .alloc [], .alloc [some 8192], .free 4208,
          .reset] := by
  have hfits : SizesFit 100 3 := by decide +kernel
  have hcreate : poolCreateNamed [] (fun _ => 0) 100 3 (some 4096) = some (some (_, _)) := rfl
  exact ⟨_, _, hcreate, stays_exact hfits hcreate⟩

/-- The largest size of a block is rounded up to 0. -/
theorem largest_block_handed_out_twice : ∃ root words,
    poolCreateNamed [] (fun _ => 0) 0xFFFFFFFFFFFFFFFF 2 (some 4096) = some (some (root, words)) ∧
      ¬ Stays step Exact (start root words) [.alloc []] := by
  refine ⟨_, _, rfl, fun hstays => ?_⟩
  obtain ⟨-, hnext⟩ := hstays
  have hexact : Exact { pool := _, live := [4096] } := hnext _ rfl
  exact hexact.fresh [] _ 4096 rfl List.mem_cons_self

end PoolRun

end Memory
end InventixDB
