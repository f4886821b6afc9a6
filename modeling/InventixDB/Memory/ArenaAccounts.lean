import InventixDB.Memory.Arena
import InventixDB.Lib.Runs

/-!
# Accounts of an arena

Every block that is not freed is counted, in every run.  The chain has all of them as long as no
block is appended in front of blocks that a reset has kept.
-/

namespace InventixDB
namespace Memory

open Lib

/-! ## Books -/

/-- The totals are those of regions that lie apart, with a header of 24 bytes each. -/
structure Books (regions : List Region) (total count : UInt64) : Prop where
  apart : regions.Pairwise Region.Apart
  bound : ∀ r ∈ regions, r.stop < 2 ^ 64
  header : ∀ r ∈ regions, 24 ≤ r.len
  total_eq : total.toNat + 24 * regions.length = (regions.map Region.len).sum
  count_eq : count.toNat = regions.length

namespace Books

variable {regions regions' : List Region} {total count : UInt64}

theorem perm (h : Books regions total count) (hperm : regions.Perm regions') :
    Books regions' total count where
  apart := (hperm.pairwise_iff fun hapart => hapart.symm).mp h.apart
  bound r hr := h.bound r (hperm.mem_iff.mpr hr)
  header r hr := h.header r (hperm.mem_iff.mpr hr)
  total_eq := by
    rw [← hperm.length_eq, ← (hperm.map Region.len).sum_eq]
    exact h.total_eq
  count_eq := by
    rw [← hperm.length_eq]
    exact h.count_eq

theorem cons (h : Books regions total count) {r : Region} {size : UInt64}
    (hlen : r.len = 24 + size.toNat) (hstop : r.stop < 2 ^ 64) (hapart : ∀ s ∈ regions, r.Apart s) :
    Books (r :: regions) (total + size) (count + 1) := by
  have hall : (r :: regions).Pairwise Region.Apart := List.pairwise_cons.mpr ⟨hapart, h.apart⟩
  have hbound : ∀ s ∈ r :: regions, s.stop < 2 ^ 64 := List.forall_mem_cons.mpr ⟨hstop, h.bound⟩
  have hroom := Region.sum_len_le hall fun s hs => (hbound s hs).le
  have htotal := h.total_eq
  have hcount := h.count_eq
  rw [List.map_cons, List.sum_cons, hlen] at hroom
  have hsum : (total + size).toNat = total.toNat + size.toNat := by
    rw [UInt64.toNat_add]
    omega
  have hone : (count + 1).toNat = count.toNat + 1 := by
    rw [UInt64.toNat_add]
    change (count.toNat + 1) % 2 ^ 64 = _
    omega
  refine ⟨hall, hbound, List.forall_mem_cons.mpr ⟨by omega, h.header⟩, ?_, ?_⟩
  · rw [hsum, List.map_cons, List.sum_cons, hlen, List.length_cons]
    omega
  · rw [hone, List.length_cons, hcount]

theorem of_cons {r : Region} {size : UInt64} (h : Books (r :: regions) total count)
    (hlen : r.len = 24 + size.toNat) : Books regions (total - size) (count - 1) := by
  have htotal := h.total_eq
  have hcount := h.count_eq
  rw [List.map_cons, List.sum_cons, hlen, List.length_cons] at htotal
  rw [List.length_cons] at hcount
  have hheader := (List.forall_mem_cons.mp h.header).2
  have hrest := List.card_nsmul_le_sum (regions.map Region.len) 24 (by simpa using hheader)
  rw [List.length_map, Nat.nsmul_eq_mul] at hrest
  refine ⟨(List.pairwise_cons.mp h.apart).2, (List.forall_mem_cons.mp h.bound).2, hheader, ?_, ?_⟩
  · rw [UInt64.toNat_sub_of_le]
    · omega
    · rw [UInt64.le_iff_toNat_le]
      omega
  · rw [UInt64.toNat_sub_of_le]
    · change count.toNat - 1 = _
      omega
    · rw [UInt64.le_iff_toNat_le]
      change 1 ≤ count.toNat
      omega

end Books

namespace Arena

variable (arena : Arena)

/-! ## What an allocation does -/

/-- An allocation appends a block. -/
def Opens (size : UInt64) (answer : Option UInt64) : Prop :=
  size ≠ 0 ∧ arena.overQuota (alignUp size memAlignment) = false ∧
    ¬ arena.current.used + alignUp size memAlignment ≤ arena.current.size ∧ answer.isSome

instance (size : UInt64) (answer : Option UInt64) : Decidable (arena.Opens size answer) :=
  inferInstanceAs (Decidable (_ ∧ _))

variable {arena} {size : UInt64} {answer : Option UInt64} {r : Arena × Option UInt64}

theorem alloc_cases (h : arena.alloc size answer = some r) :
    (¬ arena.Opens size answer ∧ r = (arena, none)) ∨
    (¬ arena.Opens size answer ∧ size ≠ 0 ∧
      arena.overQuota (alignUp size memAlignment) = false ∧
      arena.current.used + alignUp size memAlignment ≤ arena.current.size ∧
      r = (arena.bump (alignUp size memAlignment),
        some (arena.current.data + arena.current.used))) ∨
    (arena.Opens size answer ∧ ∃ newBlock,
      blockCreate arena.blocks arena.created (arena.newSize (alignUp size memAlignment)) answer
        = some (some newBlock) ∧
      r = (arena.extend (alignUp size memAlignment) newBlock, some newBlock.data)) := by
  unfold alloc at h
  split at h
  · rename_i hzero
    exact .inl ⟨fun hopens => hopens.1 hzero, (Option.some_inj.mp h).symm⟩
  · rename_i hsize
    simp only at h
    split at h
    · rename_i hover
      refine .inl ⟨fun hopens => ?_, (Option.some_inj.mp h).symm⟩
      rw [hopens.2.1] at hover
      cases hover
    · rename_i hover
      rw [Bool.not_eq_true] at hover
      split at h
      · rename_i hroom
        exact .inr (.inl ⟨fun hopens => hopens.2.2.1 hroom, hsize, hover, hroom,
          (Option.some_inj.mp h).symm⟩)
      · rename_i hroom
        obtain ⟨created, hcreate, hr⟩ := Option.map_eq_some_iff.mp h
        cases created with
        | none =>
            refine .inl ⟨fun hopens => ?_, hr.symm⟩
            obtain ⟨addr, haddr⟩ := Option.isSome_iff_exists.mp hopens.2.2.2
            rw [haddr] at hcreate
            simp only [blockCreate] at hcreate
            split at hcreate
            · cases hcreate
            · cases hcreate
        | some newBlock =>
            have hanswer : answer.isSome := by
              cases answer with
              | none => cases hcreate
              | some addr => rfl
            exact .inr (.inr ⟨⟨hsize, hover, hroom, hanswer⟩, newBlock, hcreate, hr.symm⟩)

theorem blockCreate_eq {taken : List ArenaBlock} {id : Nat} {newBlock : ArenaBlock}
    (h : blockCreate taken id size answer = some (some newBlock)) :
    ∃ addr, Grants taken (sizeofArenaBlock + size) addr ∧
      newBlock = { id := id, addr := addr, size := size, used := 0 } := by
  cases answer with
  | none => cases h
  | some addr =>
      simp only [blockCreate] at h
      split at h
      · rename_i hgrants
        cases h
        exact ⟨addr, hgrants, rfl⟩
      · cases h

theorem blockCreate_spec {taken : List ArenaBlock} {id : Nat} {newBlock : ArenaBlock}
    (hsize : 24 + size.toNat < 2 ^ 64)
    (h : blockCreate taken id size answer = some (some newBlock)) :
    newBlock.id = id ∧ newBlock.size = size ∧ newBlock.region.stop < 2 ^ 64 ∧
      ∀ block ∈ taken, block.region.Apart newBlock.region := by
  obtain ⟨addr, ⟨-, -, hstop, hapart⟩, rfl⟩ := blockCreate_eq h
  have htotal : (sizeofArenaBlock + size).toNat = sizeofArenaBlock.toNat + size.toNat := by
    rw [UInt64.toNat_add]
    exact Nat.mod_eq_of_lt hsize
  rw [htotal] at hstop hapart
  exact ⟨rfl, rfl, hstop, hapart⟩

/-- Doubling wraps to a multiple of 32, which leaves room for the header. -/
theorem header_add_newSize_lt (hdefault : arena.defaultBlockSize ≤ memArenaMaxSize)
    (size : UInt64) :
    24 + (arena.newSize (alignUp size memAlignment)).toNat < 2 ^ 64 := by
  unfold newSize
  split
  · rw [UInt64.toNat_mul, toNat_alignUp]
    change 24 + (size.toNat + 15) % 2 ^ 64 / 16 * 16 * 2 % 2 ^ 64 < 2 ^ 64
    omega
  · have hle : arena.defaultBlockSize.toNat ≤ 16 * 1024 * 1024 := UInt64.le_iff_toNat_le.mp hdefault
    omega

/-! ## The chain -/

variable (arena)

/-- The totals are those of all blocks that are not freed. -/
structure Accounted : Prop where
  books : Books (arena.blocks.map ArenaBlock.region) arena.totalAllocated arena.blockCount
  default_le : arena.defaultBlockSize ≤ memArenaMaxSize

/-- The totals are those of the chain, and every block that is not freed is in it. -/
def Balanced : Prop :=
  arena.totalAllocated.toNat = (arena.chain.map fun block => block.size.toNat).sum ∧
    arena.blockCount.toNat = arena.chain.length ∧ arena.lost = []

instance : Decidable arena.Balanced :=
  inferInstanceAs (Decidable (_ ∧ _))

variable {arena}

theorem sum_region_len (blocks : List ArenaBlock) :
    ((blocks.map ArenaBlock.region).map Region.len).sum =
      (blocks.map fun block => block.size.toNat).sum + 24 * blocks.length := by
  induction blocks with
  | nil => rfl
  | cons block blocks ih =>
      simp only [List.map_cons, List.sum_cons, List.length_cons, ih]
      change 24 + block.size.toNat + _ = _
      omega

theorem Accounted.balanced_iff (h : arena.Accounted) : arena.Balanced ↔ arena.lost = [] := by
  constructor
  · exact fun hbalanced => hbalanced.2.2
  · intro hlost
    have htotal := h.books.total_eq
    have hcount := h.books.count_eq
    rw [sum_region_len, List.length_map, blocks, hlost, List.append_nil] at htotal
    rw [List.length_map, blocks, hlost, List.append_nil] at hcount
    exact ⟨by omega, hcount, hlost⟩

theorem chain_eq_cons (arena : Arena) : ∃ first rest, arena.chain = first :: rest := by
  unfold chain
  cases arena.before with
  | nil => exact ⟨_, _, rfl⟩
  | cons first rest => exact ⟨_, _, rfl⟩

theorem reset_eq (arena : Arena) : ∃ first rest,
    arena.chain.map (fun block => { block with used := 0 }) = first :: rest ∧
      arena.reset = { arena with
        before := [], current := first, after := rest, totalUsed := 0, allocCount := 0 } := by
  obtain ⟨first, rest, hchain⟩ := arena.chain_eq_cons
  refine ⟨{ first with used := 0 }, rest.map fun block => { block with used := 0 }, ?_, ?_⟩
  · rw [hchain]
    rfl
  · rw [reset, hchain]
    rfl

theorem splitAt_eq {id : Nat} {chain before after : List ArenaBlock} {block : ArenaBlock}
    (h : splitAt id chain = some (before, block, after)) :
    chain = before ++ block :: after ∧ block.id = id := by
  induction chain generalizing before with
  | nil => cases h
  | cons first rest ih =>
      rw [splitAt] at h
      split at h
      · rename_i hid
        cases h
        exact ⟨rfl, hid⟩
      · obtain ⟨⟨before', found, after'⟩, hsplit, hpair⟩ := Option.map_eq_some_iff.mp h
        cases hpair
        obtain ⟨hrest, hid⟩ := ih hsplit
        exact ⟨by rw [hrest]; rfl, hid⟩

theorem destroy_eq (arena : Arena) (freed : List ArenaBlock) : ∃ total count,
    arena.destroy freed = { arena with totalAllocated := total, blockCount := count } := by
  induction freed generalizing arena with
  | nil => exact ⟨_, _, rfl⟩
  | cons block freed ih =>
      obtain ⟨total, count, hfreed⟩ := ih { arena with
        totalAllocated := arena.totalAllocated - block.size
        blockCount := arena.blockCount - 1 }
      exact ⟨total, count, hfreed⟩

/-- What is freed is no longer counted. -/
theorem destroy_books {freed kept : List ArenaBlock}
    (h : Books ((freed ++ kept).map ArenaBlock.region) arena.totalAllocated arena.blockCount) :
    Books (kept.map ArenaBlock.region) (arena.destroy freed).totalAllocated
      (arena.destroy freed).blockCount := by
  induction freed generalizing arena with
  | nil => exact h
  | cons block freed ih =>
      have hkept : Books ((freed ++ kept).map ArenaBlock.region) (arena.totalAllocated - block.size)
          (arena.blockCount - 1) := Books.of_cons h rfl
      exact ih hkept

theorem restore_eq {checkpoint : ArenaCheckpoint} {restored : Arena}
    (h : arena.restore checkpoint = some restored) : ∃ before block after,
      arena.chain = before ++ block :: after ∧ block.id = checkpoint.block ∧
        restored = { arena.destroy after with
          before := before
          current := { block with used := checkpoint.used }
          after := []
          totalUsed := (before ++ [{ block with used := checkpoint.used }]).foldl
            (fun total (block : ArenaBlock) => total + block.used) 0 } := by
  obtain ⟨⟨before, block, after⟩, hsplit, rfl⟩ := Option.map_eq_some_iff.mp h
  obtain ⟨hchain, hid⟩ := splitAt_eq hsplit
  exact ⟨before, block, after, hchain, hid, rfl⟩

/-! ## Steps -/

theorem bump_accounted (h : arena.Accounted) (size : UInt64) : (arena.bump size).Accounted where
  books := by
    have hregions : (arena.bump size).blocks.map ArenaBlock.region
        = arena.blocks.map ArenaBlock.region := by
      simp [blocks, chain, bump, count, ArenaBlock.region]
    rw [hregions]
    exact h.books
  default_le := h.default_le

theorem extend_accounted (h : arena.Accounted) {newBlock : ArenaBlock} (size : UInt64)
    (hstop : newBlock.region.stop < 2 ^ 64)
    (hapart : ∀ block ∈ arena.blocks, block.region.Apart newBlock.region) :
    (arena.extend size newBlock).Accounted where
  books := by
    have hcons := h.books.cons (r := newBlock.region) rfl hstop
      (by
        intro s hs
        obtain ⟨block, hblock, rfl⟩ := List.mem_map.mp hs
        exact (hapart block hblock).symm)
    refine hcons.perm ?_
    have hnew : (newBlock.region :: arena.blocks.map ArenaBlock.region).Perm
        (arena.before.map ArenaBlock.region ++ arena.current.region :: newBlock.region ::
          (arena.after ++ arena.lost).map ArenaBlock.region) := by
      simp only [blocks, chain, List.map_append, List.map_cons, List.append_assoc, List.cons_append]
      calc
        _ = (newBlock.region :: (arena.before.map ArenaBlock.region ++ [arena.current.region])) ++
            (arena.after.map ArenaBlock.region ++ arena.lost.map ArenaBlock.region) := by simp
        _ |>.Perm (arena.before.map ArenaBlock.region ++ [arena.current.region] ++
            newBlock.region :: (arena.after.map ArenaBlock.region ++
              arena.lost.map ArenaBlock.region)) := by
          exact List.perm_middle.symm
        _ |>.Perm _ := by simp
    refine hnew.trans (List.Perm.of_eq ?_)
    simp [blocks, chain, extend, count, ArenaBlock.region]
  default_le := h.default_le

theorem reset_accounted (h : arena.Accounted) : arena.reset.Accounted := by
  obtain ⟨first, rest, hchain, hreset⟩ := arena.reset_eq
  have hregions : (first :: rest).map ArenaBlock.region = arena.chain.map ArenaBlock.region := by
    rw [← hchain, List.map_map]
    rfl
  have hbooks := h.books
  rw [blocks, List.map_append, ← hregions, ← List.map_append] at hbooks
  rw [hreset]
  exact ⟨hbooks, h.default_le⟩

theorem clear_accounted (h : arena.Accounted) :
    arena.clear.Accounted ∧ arena.clear.lost = arena.lost := by
  unfold clear
  split
  · exact ⟨h, rfl⟩
  · rename_i first rest hchain
    have hperm : (arena.blocks.map ArenaBlock.region).Perm
        ((rest ++ first :: arena.lost).map ArenaBlock.region) := by
      refine List.Perm.map _ ?_
      rw [blocks, hchain, List.cons_append]
      exact List.perm_middle.symm
    have hbooks := destroy_books (h.books.perm hperm)
    obtain ⟨total, count, hfreed⟩ := arena.destroy_eq rest
    rw [hfreed] at hbooks ⊢
    exact ⟨⟨hbooks, h.default_le⟩, rfl⟩

theorem restore_accounted (h : arena.Accounted) {checkpoint : ArenaCheckpoint} {restored : Arena}
    (hrestore : arena.restore checkpoint = some restored) :
    restored.Accounted ∧ restored.lost = arena.lost := by
  obtain ⟨before, block, after, hchain, -, rfl⟩ := restore_eq hrestore
  have hperm : (arena.blocks.map ArenaBlock.region).Perm
      ((after ++ (before ++ block :: arena.lost)).map ArenaBlock.region) := by
    refine List.Perm.map _ ?_
    rw [blocks, hchain]
    calc
      before ++ block :: after ++ arena.lost
          = (before ++ [block]) ++ (after ++ arena.lost) := by simp
      _ |>.Perm (after ++ (before ++ [block] ++ arena.lost)) := by
        exact List.perm_append_comm_assoc _ _ _
      _ = after ++ (before ++ block :: arena.lost) := by simp
  have hbooks := destroy_books (h.books.perm hperm)
  obtain ⟨total, count, hfreed⟩ := arena.destroy_eq after
  rw [hfreed] at hbooks ⊢
  refine ⟨⟨?_, h.default_le⟩, rfl⟩
  simpa [blocks, chain, ArenaBlock.region] using hbooks

/-- An allocation that does not append a block cuts none off. -/
theorem alloc_accounted (h : arena.Accounted) (halloc : arena.alloc size answer = some r) :
    r.1.Accounted ∧ (arena.lost = [] →
      (r.1.lost = [] ↔ (arena.Opens size answer → arena.after = []))) := by
  rcases alloc_cases halloc with
    ⟨hopens, rfl⟩ | ⟨hopens, -, -, -, rfl⟩ | ⟨hopens, newBlock, hcreate, rfl⟩
  · exact ⟨h, fun hlost => iff_of_true hlost fun hnow => absurd hnow hopens⟩
  · exact ⟨bump_accounted h _, fun hlost => iff_of_true hlost fun hnow => absurd hnow hopens⟩
  · obtain ⟨-, -, hstop, hapart⟩ :=
      blockCreate_spec (header_add_newSize_lt h.default_le size) hcreate
    refine ⟨extend_accounted h _ hstop hapart, fun hlost => ?_⟩
    change arena.after ++ arena.lost = [] ↔ _
    rw [hlost, List.append_nil]
    exact ⟨fun hafter _ => hafter, fun hafter => hafter hopens⟩

theorem clamp_le (size : UInt64) :
    (if size > memArenaMaxSize then memArenaMaxSize else size) ≤ memArenaMaxSize := by
  split
  · exact UInt64.le_refl _
  · rename_i hlarge
    exact UInt64.not_lt.mp hlarge

theorem createWithQuota_accounted {initialSize quota addr : UInt64}
    (hcreate : createWithQuota initialSize quota addr = some arena) :
    arena.Accounted ∧ arena.lost = [] := by
  have hclamp := clamp_le (if initialSize = 0 then memArenaDefaultSize else initialSize)
  simp only [createWithQuota] at hcreate
  generalize (if _ > memArenaMaxSize then memArenaMaxSize else _) = size at hclamp hcreate
  obtain ⟨created, hcreated, harena⟩ := Option.bind_eq_some_iff.mp hcreate
  obtain ⟨block, rfl, rfl⟩ := Option.map_eq_some_iff.mp harena
  have hle : size.toNat ≤ 16 * 1024 * 1024 := UInt64.le_iff_toNat_le.mp hclamp
  obtain ⟨-, hsize, hstop, -⟩ := blockCreate_spec (by omega) hcreated
  refine ⟨⟨?_, hclamp⟩, rfl⟩
  have hnone : Books [] 0 0 := ⟨List.Pairwise.nil, by simp, by simp, rfl, rfl⟩
  have hone := hnone.cons (r := block.region) rfl hstop (by simp)
  rw [hsize, UInt64.zero_add, UInt64.zero_add] at hone
  exact hone

end Arena

/-! ## Runs -/

namespace ArenaRun

open Arena

variable {s after : ArenaRun} {call : ArenaCall}

/-- No block follows the current one where an allocation appends a block. -/
def AppendsAtEnd (s : ArenaRun) : ArenaCall → Prop
  | .alloc size answer => s.arena.Opens size answer → s.arena.after = []
  | .allocAligned size k answer =>
      size ≠ 0 → s.arena.Opens (size + UInt64.ofNat (2 ^ k.val)) answer → s.arena.after = []
  | _ => True

instance (s : ArenaRun) : (call : ArenaCall) → Decidable (s.AppendsAtEnd call)
  | .alloc _ _ => inferInstanceAs (Decidable (_ → _))
  | .allocAligned _ _ _ => inferInstanceAs (Decidable (_ → _ → _))
  | .reset => isTrue trivial
  | .clear => isTrue trivial
  | .checkpoint => isTrue trivial
  | .restore _ => isTrue trivial

/-- A power of two keeps the alignment that was asked for. -/
theorem pow_and_sub_one (k : Fin 64) :
    UInt64.ofNat (2 ^ k.val) &&& (UInt64.ofNat (2 ^ k.val) - 1) = 0 := by
  revert k
  decide

theorem allocAligned_cases {arena : Arena} {size : UInt64} {k : Fin 64} {answer : Option UInt64}
    {r : Arena × Option UInt64}
    (h : arena.allocAligned size (UInt64.ofNat (2 ^ k.val)) answer = some r) :
    (size = 0 ∧ r = (arena, none)) ∨
    (size ≠ 0 ∧ ∃ ptr, arena.alloc (size + UInt64.ofNat (2 ^ k.val)) answer = some (r.1, ptr) ∧
      r.2 = ptr.bind fun addr =>
        let aligned := alignUp addr (UInt64.ofNat (2 ^ k.val))
        if aligned = 0 then none else some aligned) := by
  unfold allocAligned at h
  split at h
  · rename_i hzero
    exact .inl ⟨hzero, (Option.some_inj.mp h).symm⟩
  · rename_i hsize
    rw [if_neg (by simp [pow_and_sub_one])] at h
    obtain ⟨⟨arena', ptr⟩, halloc, rfl⟩ := Option.map_eq_some_iff.mp h
    exact .inr ⟨hsize, ptr, halloc, rfl⟩

theorem step_accounted (h : s.arena.Accounted) (hstep : s.step call = some after) :
    after.arena.Accounted ∧
      (s.arena.lost = [] → (after.arena.lost = [] ↔ s.AppendsAtEnd call)) := by
  cases call with
  | alloc size answer =>
      obtain ⟨r, halloc, rfl⟩ := Option.map_eq_some_iff.mp hstep
      exact alloc_accounted h halloc
  | allocAligned size k answer =>
      obtain ⟨r, halloc, rfl⟩ := Option.map_eq_some_iff.mp hstep
      rcases allocAligned_cases halloc with ⟨hzero, rfl⟩ | ⟨hsize, ptr, halloc', -⟩
      · exact ⟨h, fun hlost => iff_of_true hlost fun hsize => absurd hzero hsize⟩
      · obtain ⟨haccounted, hiff⟩ := alloc_accounted h halloc'
        refine ⟨haccounted, fun hlost => (hiff hlost).trans ?_⟩
        exact ⟨fun hends _ => hends, fun hends => hends hsize⟩
  | reset =>
      cases hstep
      refine ⟨reset_accounted h, fun hlost => iff_of_true ?_ trivial⟩
      obtain ⟨first, rest, -, hreset⟩ := s.arena.reset_eq
      rw [hreset]
      exact hlost
  | clear =>
      cases hstep
      obtain ⟨haccounted, hkept⟩ := clear_accounted h
      exact ⟨haccounted, fun hlost => iff_of_true (hkept.trans hlost) trivial⟩
  | checkpoint =>
      cases hstep
      exact ⟨h, fun hlost => iff_of_true hlost trivial⟩
  | restore i =>
      simp only [step] at hstep
      split at hstep
      · cases hstep
        exact ⟨h, fun hlost => iff_of_true hlost trivial⟩
      · obtain ⟨restored, hrestore, rfl⟩ := Option.map_eq_some_iff.mp hstep
        obtain ⟨haccounted, hkept⟩ := restore_accounted h hrestore
        exact ⟨haccounted, fun hlost => iff_of_true (hkept.trans hlost) trivial⟩

/-- The totals are those of the chain, and no block is lost, in every state of just those runs that
append blocks at the end of the chain only. -/
theorem stays_balanced_iff {initialSize quota addr : UInt64} {arena : Arena}
    {calls : List ArenaCall} {after : ArenaRun}
    (hcreate : createWithQuota initialSize quota addr = some arena)
    (hrun : calls.foldlM step arena.start = some after) :
    Stays step (fun s => s.arena.Balanced) arena.start calls ↔
      StepsFit step AppendsAtEnd arena.start calls := by
  obtain ⟨haccounted, hlost⟩ := createWithQuota_accounted hcreate
  rw [stays_iff_stepsFit (I := fun s => s.arena.Accounted)
    (fun s call after h hstep => (step_accounted h hstep).1) ?_ haccounted hrun]
  · exact and_iff_right (haccounted.balanced_iff.mpr hlost)
  · intro s call after h hbalanced hstep
    obtain ⟨hafter, hiff⟩ := step_accounted h hstep
    rw [hafter.balanced_iff]
    exact hiff (h.balanced_iff.mp hbalanced)

/-- An arena with a block of 64 bytes at 4096. -/
def smallArena : Arena where
  before := []
  current := { id := 0, addr := 4096, size := 64, used := 0 }
  after := []
  lost := []
  totalAllocated := 64
  totalUsed := 0
  blockCount := 1
  defaultBlockSize := 64
  quota := 0
  quotaEnabled := false
  allocCount := 0
  peakUsage := 0
  created := 1

theorem createWithQuota_small : createWithQuota 64 0 4096 = some smallArena := by
  decide +kernel

theorem stays_balanced_restored :
    Stays step (fun s => s.arena.Balanced) smallArena.start
      [.alloc 60 none, .checkpoint, .alloc 8 (some 8192), .restore 0, .alloc 8 (some 8192), .clear,
        .alloc 100 (some 8192)] := by
  refine (stays_balanced_iff createWithQuota_small (Option.some_get ?_).symm).mpr ?_
  · decide +kernel
  · decide +kernel

/-- After a reset, a request that the first block is too small for cuts off the second block. -/
theorem reset_loses_block :
    createWithQuota 64 0 4096 = some smallArena ∧
      ¬ Stays step (fun s => s.arena.Balanced) smallArena.start
        [.alloc 64 none, .alloc 64 (some 8192), .reset, .alloc 128 (some 16384)] := by
  refine ⟨createWithQuota_small, fun hstays => ?_⟩
  have hbalanced := hstays.foldlM (Option.some_get (by decide +kernel)).symm
  revert hbalanced
  decide +kernel

end ArenaRun

end Memory
end InventixDB
