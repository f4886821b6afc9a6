import InventixDB.Memory.ArenaAccounts

/-!
# Soundness of arena allocations

An allocation lies in one block, behind what has been allocated there before, unless a sum or a
product of its size wraps around.
-/

namespace InventixDB
namespace Memory

open Lib

/-! ## Blocks and their marks -/

namespace ArenaBlock

/-- The bytes of the block. -/
def bytes (block : ArenaBlock) : Region where
  base := block.data.toNat
  len := block.size.toNat

/-- The bytes below the mark. -/
def filled (block : ArenaBlock) : Region where
  base := block.data.toNat
  len := block.used.toNat

variable {block : ArenaBlock}

theorem toNat_data (hstop : block.region.stop < 2 ^ 64) :
    block.data.toNat = block.addr.toNat + 24 := by
  have hsum : block.addr.toNat + (24 + block.size.toNat) < 2 ^ 64 := hstop
  rw [data, UInt64.toNat_add]
  change (block.addr.toNat + 24) % 2 ^ 64 = _
  omega

theorem bytes_inside (hstop : block.region.stop < 2 ^ 64) : block.bytes.Inside block.region := by
  have hdata := toNat_data hstop
  constructor
  · change block.addr.toNat ≤ block.data.toNat
    omega
  · change block.data.toNat + block.size.toNat ≤ block.addr.toNat + (24 + block.size.toNat)
    omega

theorem filled_inside (hused : block.used ≤ block.size) : block.filled.Inside block.bytes :=
  ⟨le_rfl, Nat.add_le_add_left (UInt64.le_iff_toNat_le.mp hused) _⟩

end ArenaBlock

def sumUsed (blocks : List ArenaBlock) : Nat :=
  (blocks.map fun block => block.used.toNat).sum

@[simp]
theorem sumUsed_nil : sumUsed [] = 0 :=
  rfl

@[simp]
theorem sumUsed_cons (block : ArenaBlock) (blocks : List ArenaBlock) :
    sumUsed (block :: blocks) = block.used.toNat + sumUsed blocks :=
  List.sum_cons

@[simp]
theorem sumUsed_append (blocks blocks' : List ArenaBlock) :
    sumUsed (blocks ++ blocks') = sumUsed blocks + sumUsed blocks' := by
  rw [sumUsed, List.map_append, List.sum_append]
  rfl

theorem sumUsed_eq_zero {blocks : List ArenaBlock} (hzero : ∀ block ∈ blocks, block.used = 0) :
    sumUsed blocks = 0 := by
  induction blocks with
  | nil => rfl
  | cons block blocks ih =>
      obtain ⟨hblock, hblocks⟩ := List.forall_mem_cons.mp hzero
      rw [sumUsed_cons, hblock, ih hblocks]
      rfl

theorem sumUsed_le {blocks : List ArenaBlock} (hused : ∀ block ∈ blocks, block.used ≤ block.size) :
    sumUsed blocks ≤ (blocks.map fun block => block.size.toNat).sum :=
  List.sum_le_sum fun block hblock => UInt64.le_iff_toNat_le.mp (hused block hblock)

theorem foldl_used (blocks : List ArenaBlock) (total : UInt64) :
    (blocks.foldl (fun total block => total + block.used) total).toNat
      = (total.toNat + sumUsed blocks) % 2 ^ 64 :=
  toNat_foldl_add ArenaBlock.used blocks total

/-- A region below the mark of one of the blocks. -/
def Filled (blocks : List ArenaBlock) (r : Region) : Prop :=
  ∃ block ∈ blocks, r.Inside block.filled

/-! ## Marks of an arena -/

namespace Arena

/-- The blocks up to the current one. -/
def begun (arena : Arena) : List ArenaBlock :=
  arena.before ++ [arena.current]

variable {arena : Arena}

theorem chain_eq : arena.chain = arena.begun ++ arena.after := by
  simp [chain, begun]

theorem mem_chain_of_begun {block : ArenaBlock} (hblock : block ∈ arena.begun) :
    block ∈ arena.chain := by
  rw [chain_eq]
  exact List.mem_append_left _ hblock

theorem current_mem_begun : arena.current ∈ arena.begun :=
  List.mem_append_right _ List.mem_cons_self

/-! ## Numbers of blocks -/

variable (arena) in
/-- No two blocks of the chain have one number. -/
structure Numbered : Prop where
  ids : (arena.chain.map ArenaBlock.id).Nodup
  ids_lt : ∀ block ∈ arena.chain, block.id < arena.created

theorem Numbered.of_ids {after : Arena} (h : arena.Numbered)
    (hids : after.chain.map ArenaBlock.id = arena.chain.map ArenaBlock.id)
    (hcreated : after.created = arena.created) : after.Numbered where
  ids := hids ▸ h.ids
  ids_lt := by
    have hlt : ∀ id ∈ arena.chain.map ArenaBlock.id, id < arena.created :=
      List.forall_mem_map.mpr h.ids_lt
    rw [← hids, ← hcreated] at hlt
    exact List.forall_mem_map.mp hlt

theorem bump_numbered (h : arena.Numbered) (size : UInt64) : (arena.bump size).Numbered :=
  h.of_ids (by simp [chain, bump, count]) rfl

theorem extend_numbered {newBlock : ArenaBlock} (h : arena.Numbered) (size : UInt64)
    (hid : newBlock.id = arena.created) : (arena.extend size newBlock).Numbered := by
  have hchain : (arena.extend size newBlock).chain
      = arena.begun ++ [{ newBlock with used := size }] := rfl
  have hids : (arena.begun.map ArenaBlock.id).Nodup := by
    have hall := h.ids
    rw [chain_eq, List.map_append] at hall
    exact (List.nodup_append.mp hall).1
  constructor
  · rw [hchain, List.map_append, List.map_singleton]
    refine List.Nodup.append hids (List.nodup_singleton _) ?_
    intro id hold hnew
    obtain ⟨block, hblock, rfl⟩ := List.mem_map.mp hold
    have hlt := h.ids_lt block (mem_chain_of_begun hblock)
    rw [List.mem_singleton.mp hnew, hid] at hlt
    exact absurd hlt (lt_irrefl _)
  · rw [hchain]
    refine List.forall_mem_append.mpr ⟨fun block hblock => ?_, List.forall_mem_singleton.mpr ?_⟩
    · exact (h.ids_lt block (mem_chain_of_begun hblock)).trans (Nat.lt_succ_self _)
    · exact hid.trans_lt (Nat.lt_succ_self _)

theorem reset_numbered (h : arena.Numbered) : arena.reset.Numbered := by
  obtain ⟨first, rest, hchain, hreset⟩ := arena.reset_eq
  have hids : (first :: rest).map ArenaBlock.id = arena.chain.map ArenaBlock.id := by
    rw [← hchain, List.map_map]
    rfl
  rw [hreset]
  exact h.of_ids hids rfl

theorem clear_numbered (h : arena.Numbered) : arena.clear.Numbered := by
  unfold clear
  split
  · exact h
  · rename_i first rest hchain
    have hfirst : first ∈ arena.chain := by
      rw [hchain]
      exact List.mem_cons_self
    obtain ⟨total, count, hfreed⟩ := arena.destroy_eq rest
    rw [hfreed]
    exact ⟨List.nodup_singleton _, List.forall_mem_singleton.mpr (h.ids_lt first hfirst)⟩

theorem restore_numbered (h : arena.Numbered) {checkpoint : ArenaCheckpoint} {restored : Arena}
    (hrestore : arena.restore checkpoint = some restored) : restored.Numbered := by
  obtain ⟨before, block, after, hchain, -, rfl⟩ := restore_eq hrestore
  obtain ⟨total, count, hfreed⟩ := arena.destroy_eq after
  have hids := h.ids
  have hlt := h.ids_lt
  rw [hchain] at hids hlt
  rw [hfreed]
  constructor
  · rw [List.map_append, List.map_cons] at hids
    refine List.Nodup.sublist ?_ hids
    rw [chain, List.map_append, List.map_cons]
    exact (List.Sublist.refl _).append (List.cons_sublist_cons.mpr (List.nil_sublist _))
  · obtain ⟨hbefore, hrest⟩ := List.forall_mem_append.mp hlt
    refine List.forall_mem_append.mpr ⟨hbefore, List.forall_mem_singleton.mpr ?_⟩
    exact (List.forall_mem_cons.mp hrest).1

/-! ## Marks -/

variable (arena) in
/-- No mark is behind the end of its block, and the marks add up to what is used. -/
structure Marked : Prop where
  accounted : arena.Accounted
  ids : (arena.chain.map ArenaBlock.id).Nodup
  ids_lt : ∀ block ∈ arena.chain, block.id < arena.created
  used_le : ∀ block ∈ arena.chain, block.used ≤ block.size
  after_eq : ∀ block ∈ arena.after, block.used = 0
  total_eq : arena.totalUsed.toNat = sumUsed arena.chain
  quota_le : arena.quotaEnabled → arena.totalUsed ≤ arena.quota

theorem Marked.numbered (h : arena.Marked) : arena.Numbered :=
  ⟨h.ids, h.ids_lt⟩

theorem Accounted.stop_lt (h : arena.Accounted) {block : ArenaBlock}
    (hblock : block ∈ arena.chain) :
    block.region.stop < 2 ^ 64 :=
  h.books.bound _ (List.mem_map_of_mem (List.mem_append_left _ hblock))

/-- All that is used fits into the address space. -/
theorem Accounted.sumUsed_lt (h : arena.Accounted)
    (hused : ∀ block ∈ arena.chain, block.used ≤ block.size) : sumUsed arena.chain < 2 ^ 64 := by
  have hroom := Region.sum_len_le h.books.apart fun r hr => (h.books.bound r hr).le
  rw [sum_region_len, blocks, List.map_append, List.sum_append, List.length_append] at hroom
  have hlength : 0 < arena.chain.length := by simp [chain]
  have hle := sumUsed_le hused
  omega

/-! ## Allocations -/

variable {size : UInt64} {newBlock : ArenaBlock}

theorem le_quota_of_not_overQuota (hover : arena.overQuota size = false)
    (henabled : arena.quotaEnabled) : arena.totalUsed + size ≤ arena.quota := by
  rw [overQuota, henabled, Bool.true_and, decide_eq_false_iff_not] at hover
  exact UInt64.not_lt.mp hover

theorem chain_bump (size : UInt64) :
    (arena.bump size).chain =
      arena.before ++ { arena.current with used := arena.current.used + size } :: arena.after :=
  rfl

theorem bump_marked (h : arena.Marked) (hover : arena.overQuota size = false)
    (hwrap : arena.current.used.toNat + size.toNat < 2 ^ 64)
    (hroom : arena.current.used + size ≤ arena.current.size) : (arena.bump size).Marked := by
  have haccounted := bump_accounted h.accounted size
  have hbefore : ∀ block ∈ arena.before, block.used ≤ block.size := fun block hblock =>
    h.used_le block (List.mem_append_left _ hblock)
  have hafter : ∀ block ∈ arena.after, block.used ≤ block.size := fun block hblock =>
    h.used_le block (List.mem_append_right _ (List.mem_cons_of_mem _ hblock))
  have hused : ∀ block ∈ (arena.bump size).chain, block.used ≤ block.size := by
    rw [chain_bump]
    exact List.forall_mem_append.mpr ⟨hbefore, List.forall_mem_cons.mpr ⟨hroom, hafter⟩⟩
  obtain ⟨hids, hidsLt⟩ := bump_numbered h.numbered size
  refine ⟨haccounted, hids, hidsLt, hused, h.after_eq, ?_, fun henabled => ?_⟩
  · have hlt := haccounted.sumUsed_lt hused
    have htotal := h.total_eq
    have hsum : (arena.current.used + size).toNat = arena.current.used.toNat + size.toNat := by
      rw [UInt64.toNat_add]
      exact Nat.mod_eq_of_lt hwrap
    rw [chain, sumUsed_append, sumUsed_cons] at htotal
    rw [chain_bump, sumUsed_append, sumUsed_cons, hsum] at hlt ⊢
    change (arena.totalUsed + size).toNat = _
    rw [UInt64.toNat_add]
    omega
  · exact le_quota_of_not_overQuota hover henabled

theorem chain_extend (size : UInt64) :
    (arena.extend size newBlock).chain = arena.begun ++ [{ newBlock with used := size }] :=
  rfl

theorem extend_marked (h : arena.Marked) (hover : arena.overQuota size = false)
    (hid : newBlock.id = arena.created) (hroom : size ≤ newBlock.size)
    (hstop : newBlock.region.stop < 2 ^ 64)
    (hapart : ∀ block ∈ arena.blocks, block.region.Apart newBlock.region) :
    (arena.extend size newBlock).Marked := by
  have haccounted := extend_accounted h.accounted size hstop hapart
  have hused : ∀ block ∈ (arena.extend size newBlock).chain, block.used ≤ block.size := by
    rw [chain_extend]
    refine List.forall_mem_append.mpr ⟨fun block hblock => ?_, List.forall_mem_singleton.mpr hroom⟩
    exact h.used_le block (mem_chain_of_begun hblock)
  obtain ⟨hids, hidsLt⟩ := extend_numbered h.numbered size hid
  refine ⟨haccounted, hids, hidsLt, hused, by simp [extend, count], ?_, fun henabled => ?_⟩
  · have hlt := haccounted.sumUsed_lt hused
    have htotal := h.total_eq
    rw [chain_eq, sumUsed_append, sumUsed_eq_zero h.after_eq] at htotal
    rw [chain_extend, sumUsed_append, sumUsed_cons, sumUsed_nil] at hlt ⊢
    change (arena.totalUsed + size).toNat = _
    rw [UInt64.toNat_add]
    dsimp only at hlt ⊢
    omega
  · exact le_quota_of_not_overQuota hover henabled

/-- Blocks that are apart hold nothing of each other's bytes. -/
theorem Marked.filled_apart (h : arena.Marked) {block other : ArenaBlock}
    (hblock : block ∈ arena.chain) (hapart : block.region.Apart other.region)
    (hother : other.region.stop < 2 ^ 64) {r r' : Region} (hr : r.Inside block.filled)
    (hr' : r'.Inside other.bytes) : r.Apart r' := by
  refine hapart.mono (Region.Inside.trans ?_ (ArenaBlock.bytes_inside (h.accounted.stop_lt hblock)))
    (hr'.trans (ArenaBlock.bytes_inside hother))
  exact hr.trans (ArenaBlock.filled_inside (h.used_le block hblock))

/-- `ptr` points to `size` new bytes, and no old bytes are lost. -/
structure Places (arena after : Arena) (ptr size : UInt64) : Prop where
  filled : Filled after.begun { base := ptr.toNat, len := size.toNat }
  kept : ∀ r, Filled arena.begun r → Filled after.begun r
  apart : ∀ r, Filled arena.begun r → r.Apart { base := ptr.toNat, len := size.toNat }

theorem bump_places (h : arena.Marked) (hwrap : arena.current.used.toNat + size.toNat < 2 ^ 64)
    (hroom : arena.current.used + size ≤ arena.current.size) :
    Places arena (arena.bump size) (arena.current.data + arena.current.used) size := by
  have hcurrent : arena.current ∈ arena.chain := mem_chain_of_begun current_mem_begun
  have hstop := h.accounted.stop_lt hcurrent
  have hdata := ArenaBlock.toNat_data hstop
  have hsum : (arena.current.used + size).toNat = arena.current.used.toNat + size.toNat := by
    rw [UInt64.toNat_add]
    exact Nat.mod_eq_of_lt hwrap
  have hle := UInt64.le_iff_toNat_le.mp hroom
  have hptr : (arena.current.data + arena.current.used).toNat
      = arena.current.data.toNat + arena.current.used.toNat := by
    have hend : arena.current.addr.toNat + (24 + arena.current.size.toNat) < 2 ^ 64 := hstop
    rw [UInt64.toNat_add]
    omega
  have hnew : (arena.bump size).current ∈ (arena.bump size).begun := current_mem_begun
  have hfilled : (arena.bump size).current.filled =
      { base := arena.current.data.toNat, len := arena.current.used.toNat + size.toNat } := by
    rw [← hsum]
    rfl
  refine ⟨⟨_, hnew, ?_⟩, fun r hr => ?_, fun r hr => ?_⟩
  · rw [hfilled, hptr]
    exact ⟨Nat.le_add_right _ _, by simp only [Region.stop]; omega⟩
  · obtain ⟨block, hblock, hinside⟩ := hr
    rcases List.mem_append.mp hblock with hbefore | hlast
    · exact ⟨block, List.mem_append_left _ hbefore, hinside⟩
    · cases List.mem_singleton.mp hlast
      refine ⟨_, hnew, hinside.trans ?_⟩
      rw [hfilled]
      exact ⟨le_rfl, by simp only [Region.stop, ArenaBlock.filled]; omega⟩
  · obtain ⟨block, hblock, hinside⟩ := hr
    rcases List.mem_append.mp hblock with hbefore | hlast
    · have hapart : block.region.Apart arena.current.region := by
        have hall := h.accounted.books.apart
        rw [blocks, chain, List.append_assoc, List.map_append] at hall
        refine (List.pairwise_append.mp hall).2.2 _ (List.mem_map_of_mem hbefore) _ ?_
        exact List.mem_map_of_mem List.mem_cons_self
      refine h.filled_apart (mem_chain_of_begun hblock) hapart hstop hinside ?_
      rw [hptr]
      exact ⟨Nat.le_add_right _ _, by simp only [Region.stop, ArenaBlock.bytes]; omega⟩
    · cases List.mem_singleton.mp hlast
      rw [hptr]
      exact .inl hinside.2

theorem extend_places (h : arena.Marked) (hroom : size ≤ newBlock.size)
    (hstop : newBlock.region.stop < 2 ^ 64)
    (hapart : ∀ block ∈ arena.blocks, block.region.Apart newBlock.region) :
    Places arena (arena.extend size newBlock) newBlock.data size := by
  have hbegun : (arena.extend size newBlock).begun
      = arena.begun ++ [{ newBlock with used := size }] := rfl
  refine ⟨⟨{ newBlock with used := size }, ?_, le_rfl, le_rfl⟩, fun r hr => ?_, fun r hr => ?_⟩
  · rw [hbegun]
    exact List.mem_append_right _ List.mem_cons_self
  · obtain ⟨block, hblock, hinside⟩ := hr
    rw [hbegun]
    exact ⟨block, List.mem_append_left _ hblock, hinside⟩
  · obtain ⟨block, hblock, hinside⟩ := hr
    have hchain := mem_chain_of_begun hblock
    refine h.filled_apart hchain (hapart block (List.mem_append_left _ hchain)) hstop hinside ?_
    exact ⟨le_rfl, Nat.add_le_add_left (UInt64.le_iff_toNat_le.mp hroom) _⟩

/-! ## Requests that do not wrap -/

variable (arena) in
/-- `arena_alloc` returns `NULL`. -/
def Refuses (size : UInt64) (answer : Option UInt64) : Prop :=
  size = 0 ∨ arena.overQuota (alignUp size memAlignment) = true ∨
    (¬ arena.current.used + alignUp size memAlignment ≤ arena.current.size ∧ answer = none)

variable (arena) in
/-- The request is refused, or can be rounded up, added to the mark, and doubled for a new block. -/
def Representable (size : UInt64) (answer : Option UInt64) : Prop :=
  arena.Refuses size answer ∨
    (size.toNat + 15 < 2 ^ 64 ∧
      arena.current.used.toNat + (alignUp size memAlignment).toNat < 2 ^ 64 ∧
      (arena.current.used + alignUp size memAlignment ≤ arena.current.size ∨
        (alignUp size memAlignment).toNat < 2 ^ 63))

instance (size : UInt64) (answer : Option UInt64) : Decidable (arena.Refuses size answer) :=
  inferInstanceAs (Decidable (_ ∨ _))

instance (size : UInt64) (answer : Option UInt64) : Decidable (arena.Representable size answer) :=
  inferInstanceAs (Decidable (_ ∨ _))

theorem Places.mono {after : Arena} {ptr ptr' rounded : UInt64}
    (h : Places arena after ptr rounded) (hlow : ptr ≤ ptr')
    (hhigh : ptr'.toNat + size.toNat ≤ ptr.toNat + rounded.toNat) :
    Places arena after ptr' size := by
  have hinside : Region.Inside { base := ptr'.toNat, len := size.toNat }
      { base := ptr.toNat, len := rounded.toNat } := ⟨UInt64.le_iff_toNat_le.mp hlow, hhigh⟩
  obtain ⟨⟨block, hblock, hfilled⟩, hkept, hapart⟩ := h
  refine ⟨⟨block, hblock, hinside.trans hfilled⟩, hkept, fun r hr => ?_⟩
  exact (hapart r hr).mono ⟨le_rfl, le_rfl⟩ hinside

theorem le_newSize (arena : Arena) (hdouble : size.toNat < 2 ^ 63) : size ≤ arena.newSize size := by
  unfold newSize
  split
  · rw [UInt64.le_iff_toNat_le, UInt64.toNat_mul]
    change size.toNat ≤ size.toNat * 2 % 2 ^ 64
    omega
  · rename_i hsmall
    exact UInt64.not_lt.mp hsmall

/-- A request that has room, or gets a new block, is not refused. -/
theorem not_refuses {answer : Option UInt64} (hsize : size ≠ 0)
    (hover : arena.overQuota (alignUp size memAlignment) = false)
    (hroom : arena.current.used + alignUp size memAlignment ≤ arena.current.size ∨
      answer ≠ none) : ¬ arena.Refuses size answer := by
  rintro (hzero | hrefused | ⟨hfull, hnone⟩)
  · exact hsize hzero
  · exact absurd (hover.symm.trans hrefused) Bool.false_ne_true
  · exact hroom.elim hfull fun hanswer => hanswer hnone

/-- `arena_alloc` -/
theorem alloc_spec (h : arena.Marked) {answer : Option UInt64} {r : Arena × Option UInt64}
    (hrepresentable : arena.Representable size answer) (halloc : arena.alloc size answer = some r) :
    r.1.Marked ∧ (∀ ptr ∈ r.2, Places arena r.1 ptr size) ∧ (r.2 = none → r.1 = arena) ∧
      (arena.Refuses size answer → r.2 = none) := by
  rcases alloc_cases halloc with
    ⟨-, rfl⟩ | ⟨-, hsize, hover, hroom, rfl⟩ | ⟨hopens, newBlock, hcreate, rfl⟩
  · exact ⟨h, by simp, fun _ => rfl, fun _ => rfl⟩
  · have hadmits : ¬ arena.Refuses size answer := not_refuses hsize hover (.inl hroom)
    obtain ⟨hround, hwrap, -⟩ := hrepresentable.resolve_left hadmits
    refine ⟨bump_marked h hover hwrap hroom, fun ptr hptr => ?_, by simp,
      fun hno => absurd hno hadmits⟩
    cases hptr
    refine (bump_places h hwrap hroom).mono (UInt64.le_refl _) ?_
    rw [toNat_alignUp]
    omega
  · obtain ⟨hsize, hover, hfull, hanswer⟩ := hopens
    have hadmits : ¬ arena.Refuses size answer := by
      refine not_refuses hsize hover (.inr ?_)
      rintro rfl
      cases hanswer
    obtain ⟨hround, -, hdouble⟩ := hrepresentable.resolve_left hadmits
    obtain ⟨hid, hnewSize, hstop, hapart⟩ :=
      blockCreate_spec (header_add_newSize_lt h.accounted.default_le size) hcreate
    have hroom := le_newSize arena (hdouble.resolve_left hfull)
    rw [← hnewSize] at hroom
    refine ⟨extend_marked h hover hid hroom hstop hapart, fun ptr hptr => ?_, by simp,
      fun hno => absurd hno hadmits⟩
    cases hptr
    refine (extend_places h hroom hstop hapart).mono (UInt64.le_refl _) ?_
    rw [toNat_alignUp]
    omega

theorem toNat_two_pow {k : Nat} (hk : k < 64) : (UInt64.ofNat (2 ^ k)).toNat = 2 ^ k := by
  rw [UInt64.toNat_ofNat']
  exact Nat.mod_eq_of_lt (Nat.pow_lt_pow_right (by decide) hk)

theorem toNat_alignUp_two_pow (addr : UInt64) {k : Nat} (hk : k < 64)
    (hwrap : addr.toNat + 2 ^ k < 2 ^ 64) :
    (alignUp addr (UInt64.ofNat (2 ^ k))).toNat = (addr.toNat + 2 ^ k - 1) / 2 ^ k * 2 ^ k := by
  have hpos := Nat.two_pow_pos k
  have hsum : (addr + UInt64.ofNat (2 ^ k) - 1).toNat = addr.toNat + 2 ^ k - 1 := by
    have hadd : (addr + UInt64.ofNat (2 ^ k)).toNat = addr.toNat + 2 ^ k := by
      rw [UInt64.toNat_add, toNat_two_pow hk]
      exact Nat.mod_eq_of_lt hwrap
    rw [UInt64.toNat_sub_of_le, hadd]
    · rfl
    · rw [UInt64.le_iff_toNat_le, hadd]
      exact Nat.le_add_left_of_le hpos
  rw [alignUp, toNat_and_not_mask _ hk, hsum]

/-- `arena_alloc_aligned`: what rounding up the pointer takes is at most what has been added. -/
theorem allocAligned_spec (h : arena.Marked) {answer : Option UInt64} {r : Arena × Option UInt64}
    (k : Fin 64)
    (hrepresentable : size ≠ 0 → arena.Representable (size + UInt64.ofNat (2 ^ k.val)) answer ∧
      (arena.Refuses (size + UInt64.ofNat (2 ^ k.val)) answer ∨ size.toNat + 2 ^ k.val < 2 ^ 64))
    (halloc : arena.allocAligned size (UInt64.ofNat (2 ^ k.val)) answer = some r) :
    r.1.Marked ∧ (∀ ptr ∈ r.2, Places arena r.1 ptr size ∧ 2 ^ k.val ∣ ptr.toNat) ∧
      (∀ region, Filled arena.begun region → Filled r.1.begun region) := by
  rcases ArenaRun.allocAligned_cases halloc with ⟨-, rfl⟩ | ⟨hsize, ptr, htotal, hptr⟩
  · exact ⟨h, by simp, fun _ hregion => hregion⟩
  · obtain ⟨hfits, hsum⟩ := hrepresentable hsize
    obtain ⟨hmarked, hplaces, hsame, hrefuses⟩ := alloc_spec h hfits htotal
    cases ptr with
    | none =>
        rw [hptr]
        refine ⟨hmarked, by simp, fun region hregion => ?_⟩
        rw [hsame rfl]
        exact hregion
    | some addr =>
        have hpos := Nat.two_pow_pos k.val
        have hplaced := hplaces addr rfl
        refine ⟨hmarked, fun aligned haligned => ?_, hplaced.kept⟩
        have hwrap := hsum.resolve_left fun hno => Option.some_ne_none addr (hrefuses hno)
        have hlen : (size + UInt64.ofNat (2 ^ k.val)).toNat = size.toNat + 2 ^ k.val := by
          rw [UInt64.toNat_add, toNat_two_pow k.isLt]
          exact Nat.mod_eq_of_lt hwrap
        have hend : addr.toNat + (size.toNat + 2 ^ k.val) < 2 ^ 64 := by
          obtain ⟨block, hblock, -, hstop⟩ := hplaced.filled
          have hchain := mem_chain_of_begun hblock
          have hbytes := (ArenaBlock.filled_inside (hmarked.used_le block hchain)).2
          have hregion := (ArenaBlock.bytes_inside (hmarked.accounted.stop_lt hchain)).2
          have hlast := hmarked.accounted.stop_lt hchain
          rw [← hlen]
          exact hstop.trans_lt ((hbytes.trans hregion).trans_lt hlast)
        have hround := toNat_alignUp_two_pow addr k.isLt (by omega)
        have hdiv := Nat.div_add_mod (addr.toNat + 2 ^ k.val - 1) (2 ^ k.val)
        have hmod := Nat.mod_lt (addr.toNat + 2 ^ k.val - 1) hpos
        rw [Nat.mul_comm, ← hround] at hdiv
        have heq : aligned = alignUp addr (UInt64.ofNat (2 ^ k.val)) := by
          rw [hptr] at haligned
          simp only [Option.bind_some, Option.mem_def] at haligned
          split at haligned
          · cases haligned
          · exact (Option.some_inj.mp haligned).symm
        subst heq
        refine ⟨hplaced.mono ?_ ?_, ?_⟩
        · rw [UInt64.le_iff_toNat_le]
          omega
        · omega
        · rw [hround]
          exact Nat.dvd_mul_left _ _

theorem reset_marked (h : arena.Marked) : arena.reset.Marked := by
  have haccounted := reset_accounted h.accounted
  obtain ⟨hids, hidsLt⟩ := reset_numbered h.numbered
  obtain ⟨first, rest, hchain, hreset⟩ := arena.reset_eq
  have hzero : ∀ block ∈ first :: rest, block.used = 0 := by
    rw [← hchain]
    exact List.forall_mem_map.mpr fun block _ => rfl
  rw [hreset] at haccounted hids hidsLt ⊢
  refine ⟨haccounted, hids, hidsLt, ?_, ?_, ?_, fun _ => UInt64.zero_le⟩
  · intro block hblock
    rw [hzero block hblock]
    exact UInt64.zero_le
  · exact (List.forall_mem_cons.mp hzero).2
  · exact (sumUsed_eq_zero hzero).symm

theorem clear_marked (h : arena.Marked) : arena.clear.Marked := by
  have haccounted := (clear_accounted h.accounted).1
  obtain ⟨hids, hidsLt⟩ := clear_numbered h.numbered
  unfold clear at haccounted hids hidsLt ⊢
  split at haccounted
  · exact h
  · rename_i first rest hchain
    obtain ⟨total, count, hfreed⟩ := arena.destroy_eq rest
    simp only [hchain, hfreed] at haccounted hids hidsLt ⊢
    refine ⟨haccounted, hids, hidsLt, ?_, by simp, rfl, fun _ => UInt64.zero_le⟩
    exact List.forall_mem_singleton.mpr UInt64.zero_le

theorem restore_marked (h : arena.Marked) {checkpoint : ArenaCheckpoint} {restored : Arena}
    (hsize : ∀ block ∈ arena.chain, block.id = checkpoint.block → checkpoint.used ≤ block.size)
    (hlow : arena.quotaEnabled → ∀ block ∈ arena.chain, block.id = checkpoint.block →
      checkpoint.used ≤ block.used)
    (hrestore : arena.restore checkpoint = some restored) : restored.Marked := by
  have haccounted := (restore_accounted h.accounted hrestore).1
  obtain ⟨hids, hidsLt⟩ := restore_numbered h.numbered hrestore
  obtain ⟨before, block, after, hchain, hid, rfl⟩ := restore_eq hrestore
  obtain ⟨total, count, hfreed⟩ := arena.destroy_eq after
  rw [hfreed] at haccounted hids hidsLt ⊢
  have hbefore : ∀ other ∈ before, other ∈ arena.chain := fun other hother => by
    rw [hchain]
    exact List.mem_append_left _ hother
  have hblock : block ∈ arena.chain := by
    rw [hchain]
    exact List.mem_append_right _ List.mem_cons_self
  have hused : ∀ other ∈ before ++ [{ block with used := checkpoint.used }],
      other.used ≤ other.size := by
    refine List.forall_mem_append.mpr
      ⟨fun other hother => h.used_le other (hbefore other hother), ?_⟩
    exact List.forall_mem_singleton.mpr (hsize block hblock hid)
  have hlt : sumUsed (before ++ [{ block with used := checkpoint.used }]) < 2 ^ 64 :=
    haccounted.sumUsed_lt hused
  have hsum := foldl_used (before ++ [{ block with used := checkpoint.used }]) 0
  rw [UInt64.toNat_zero, Nat.zero_add, Nat.mod_eq_of_lt hlt] at hsum
  refine ⟨haccounted, hids, hidsLt, hused, by simp, hsum, fun henabled => ?_⟩
  have hquota := UInt64.le_iff_toNat_le.mp (h.quota_le henabled)
  have hmark := UInt64.le_iff_toNat_le.mp (hlow henabled block hblock hid)
  have htotal := h.total_eq
  rw [hchain, sumUsed_append, sumUsed_cons] at htotal
  rw [sumUsed_append, sumUsed_cons, sumUsed_nil] at hsum
  rw [UInt64.le_iff_toNat_le]
  dsimp only at hsum ⊢
  omega

/-! ## Blocks that stay -/

/-- The blocks of the chain are old ones, with their sizes, and new ones. -/
structure Grows (arena after : Arena) : Prop where
  created_le : arena.created ≤ after.created
  old_or_new : ∀ block ∈ after.chain, arena.created ≤ block.id ∨
    ∃ old ∈ arena.chain, old.id = block.id ∧ old.size = block.size

/-- The mark of a checkpoint is not behind the end of its block. -/
structure Reaches (arena : Arena) (checkpoint : ArenaCheckpoint) : Prop where
  block_lt : checkpoint.block < arena.created
  used_le : ∀ block ∈ arena.chain, block.id = checkpoint.block → checkpoint.used ≤ block.size

theorem Reaches.grows {after : Arena} {checkpoint : ArenaCheckpoint}
    (h : arena.Reaches checkpoint) (hgrows : Grows arena after) : after.Reaches checkpoint where
  block_lt := h.block_lt.trans_le hgrows.created_le
  used_le block hblock hid := by
    rcases hgrows.old_or_new block hblock with hnew | ⟨old, hold, holdId, hsize⟩
    · have hlt := h.block_lt
      omega
    · rw [← hsize]
      exact h.used_le old hold (holdId.trans hid)

theorem Grows.of_subset {after : Arena} (hcreated : after.created = arena.created)
    (hold : ∀ block ∈ after.chain, ∃ old ∈ arena.chain, old.id = block.id ∧ old.size = block.size) :
    Grows arena after where
  created_le := hcreated.ge
  old_or_new block hblock := .inr (hold block hblock)

theorem alloc_grows (h : arena.Marked) {answer : Option UInt64} {r : Arena × Option UInt64}
    (halloc : arena.alloc size answer = some r) : Grows arena r.1 := by
  rcases alloc_cases halloc with
    ⟨-, rfl⟩ | ⟨-, -, -, -, rfl⟩ | ⟨-, newBlock, hcreate, rfl⟩
  · exact .of_subset rfl fun block hblock => ⟨block, hblock, rfl, rfl⟩
  · refine .of_subset rfl ?_
    rw [chain_bump]
    refine List.forall_mem_append.mpr ⟨fun block hblock => ?_, List.forall_mem_cons.mpr ⟨?_, ?_⟩⟩
    · exact ⟨block, List.mem_append_left _ hblock, rfl, rfl⟩
    · exact ⟨arena.current, mem_chain_of_begun current_mem_begun, rfl, rfl⟩
    · intro block hblock
      exact ⟨block, List.mem_append_right _ (List.mem_cons_of_mem _ hblock), rfl, rfl⟩
  · obtain ⟨hid, -⟩ :=
      blockCreate_spec (header_add_newSize_lt h.accounted.default_le size) hcreate
    refine ⟨Nat.le_succ _, ?_⟩
    rw [chain_extend]
    refine List.forall_mem_append.mpr ⟨fun block hblock => ?_, List.forall_mem_singleton.mpr ?_⟩
    · exact .inr ⟨block, mem_chain_of_begun hblock, rfl, rfl⟩
    · exact .inl hid.ge

theorem reset_grows : Grows arena arena.reset := by
  obtain ⟨first, rest, hchain, hreset⟩ := arena.reset_eq
  rw [hreset]
  refine .of_subset rfl ?_
  change ∀ block ∈ first :: rest, _
  rw [← hchain]
  exact List.forall_mem_map.mpr fun block hblock => ⟨block, hblock, rfl, rfl⟩

theorem clear_grows : Grows arena arena.clear := by
  unfold clear
  split
  · exact .of_subset rfl fun block hblock => ⟨block, hblock, rfl, rfl⟩
  · rename_i first rest hchain
    obtain ⟨total, count, hfreed⟩ := arena.destroy_eq rest
    rw [hfreed]
    refine .of_subset rfl (List.forall_mem_singleton.mpr ⟨first, ?_, rfl, rfl⟩)
    rw [hchain]
    exact List.mem_cons_self

theorem restore_grows {checkpoint : ArenaCheckpoint} {restored : Arena}
    (hrestore : arena.restore checkpoint = some restored) : Grows arena restored := by
  obtain ⟨before, block, after, hchain, -, rfl⟩ := restore_eq hrestore
  obtain ⟨total, count, hfreed⟩ := arena.destroy_eq after
  rw [hfreed]
  refine .of_subset rfl ?_
  rw [hchain]
  refine List.forall_mem_append.mpr ⟨fun other hother => ?_, List.forall_mem_singleton.mpr ?_⟩
  · exact ⟨other, List.mem_append_left _ hother, rfl, rfl⟩
  · exact ⟨block, List.mem_append_right _ List.mem_cons_self, rfl, rfl⟩

theorem createWithQuota_marked {initialSize quota addr : UInt64}
    (hcreate : createWithQuota initialSize quota addr = some arena) : arena.Marked := by
  obtain ⟨haccounted, -⟩ := createWithQuota_accounted hcreate
  simp only [createWithQuota] at hcreate
  obtain ⟨created, hcreated, harena⟩ := Option.bind_eq_some_iff.mp hcreate
  obtain ⟨block, rfl, rfl⟩ := Option.map_eq_some_iff.mp harena
  obtain ⟨addr, -, rfl⟩ := blockCreate_eq hcreated
  refine ⟨haccounted, List.nodup_singleton _, ?_, ?_, by simp, rfl, fun _ => UInt64.zero_le⟩
  · exact List.forall_mem_singleton.mpr Nat.zero_lt_one
  · exact List.forall_mem_singleton.mpr UInt64.zero_le

end Arena

/-! ## Runs -/

namespace ArenaRun

open Arena

/-- Every live allocation has its bytes in one block, aligned as asked and apart from those of the
others, and the quota is kept. -/
structure Sound (s : ArenaRun) : Prop where
  inside : ∀ a ∈ s.live, ∃ block ∈ s.arena.chain, a.region.Inside block.bytes
  aligned : ∀ a ∈ s.live, a.alignment ∣ a.region.base
  apart : s.live.Pairwise fun a b => a.region.Apart b.region
  quota_le : s.arena.quotaEnabled → s.arena.totalUsed ≤ s.arena.quota

/-- What the run keeps: live allocations lie below the marks. -/
structure Ordered (s : ArenaRun) : Prop where
  marked : s.arena.Marked
  reaches : ∀ checkpoint ∈ s.checkpoints, s.arena.Reaches checkpoint
  filled : ∀ a ∈ s.live, Filled s.arena.begun a.region
  aligned : ∀ a ∈ s.live, a.alignment ∣ a.region.base
  apart : s.live.Pairwise fun a b => a.region.Apart b.region

variable {s after : ArenaRun} {call : ArenaCall}

theorem Ordered.sound (h : s.Ordered) : s.Sound where
  inside a ha := by
    obtain ⟨block, hblock, hinside⟩ := h.filled a ha
    have hchain := mem_chain_of_begun hblock
    exact ⟨block, hchain, hinside.trans (ArenaBlock.filled_inside (h.marked.used_le block hchain))⟩
  aligned := h.aligned
  apart := h.apart
  quota_le := h.marked.quota_le

/-- No sum or product of the call wraps around, and under a quota no checkpoint moves a mark on. -/
def Fits (s : ArenaRun) : ArenaCall → Prop
  | .alloc size answer => s.arena.Representable size answer
  | .allocAligned size k answer =>
      size ≠ 0 → s.arena.Representable (size + UInt64.ofNat (2 ^ k.val)) answer ∧
        (s.arena.Refuses (size + UInt64.ofNat (2 ^ k.val)) answer ∨ size.toNat + 2 ^ k.val < 2 ^ 64)
  | .restore i =>
      s.arena.quotaEnabled → ∀ checkpoint ∈ s.checkpoints[i]?, ∀ block ∈ s.arena.chain,
        block.id = checkpoint.block → checkpoint.used ≤ block.used
  | _ => True

instance (s : ArenaRun) : (call : ArenaCall) → Decidable (s.Fits call)
  | .alloc _ _ => inferInstanceAs (Decidable (_ ∨ _))
  | .allocAligned _ _ _ => inferInstanceAs (Decidable (_ → _))
  | .restore _ => inferInstanceAs (Decidable (_ → ∀ _ ∈ _, _))
  | .reset => isTrue trivial
  | .clear => isTrue trivial
  | .checkpoint => isTrue trivial

/-- A new allocation lies below the marks, and apart from the others. -/
theorem allocated_ordered (h : s.Ordered) {size : UInt64} {alignment : Nat}
    {r : Arena × Option UInt64} (hmarked : r.1.Marked) (hgrows : Grows s.arena r.1)
    (hkept : ∀ region, Filled s.arena.begun region → Filled r.1.begun region)
    (hplaces : ∀ ptr ∈ r.2, Places s.arena r.1 ptr size ∧ alignment ∣ ptr.toNat) :
    (s.allocated size alignment r).Ordered := by
  obtain ⟨arena, ptr⟩ := r
  have hreaches : ∀ checkpoint ∈ s.checkpoints, arena.Reaches checkpoint :=
    fun checkpoint hcheckpoint => (h.reaches checkpoint hcheckpoint).grows hgrows
  cases ptr with
  | none => exact ⟨hmarked, hreaches, fun a ha => hkept _ (h.filled a ha), h.aligned, h.apart⟩
  | some ptr =>
      obtain ⟨hplaced, haligned⟩ := hplaces ptr rfl
      refine ⟨hmarked, hreaches, ?_, ?_, ?_⟩
      · exact List.forall_mem_cons.mpr ⟨hplaced.filled, fun a ha => hkept _ (h.filled a ha)⟩
      · exact List.forall_mem_cons.mpr ⟨haligned, h.aligned⟩
      · exact List.pairwise_cons.mpr ⟨fun a ha => (hplaced.apart _ (h.filled a ha)).symm, h.apart⟩

theorem step_ordered (h : s.Ordered) (hfits : s.Fits call) (hstep : s.step call = some after) :
    after.Ordered := by
  cases call with
  | alloc size answer =>
      obtain ⟨r, halloc, rfl⟩ := Option.map_eq_some_iff.mp hstep
      obtain ⟨hmarked, hplaces, hsame, -⟩ := alloc_spec h.marked hfits halloc
      refine allocated_ordered h hmarked (alloc_grows h.marked halloc) (fun region hregion => ?_)
        fun ptr hptr => ⟨hplaces ptr hptr, one_dvd _⟩
      obtain ⟨arena, ptr⟩ := r
      cases ptr with
      | none =>
          rw [hsame rfl]
          exact hregion
      | some ptr => exact (hplaces ptr rfl).kept region hregion
  | allocAligned size k answer =>
      obtain ⟨r, halloc, rfl⟩ := Option.map_eq_some_iff.mp hstep
      obtain ⟨hmarked, hplaces, hkept⟩ := allocAligned_spec h.marked k hfits halloc
      refine allocated_ordered h hmarked ?_ hkept hplaces
      rcases allocAligned_cases halloc with ⟨-, rfl⟩ | ⟨-, ptr, htotal, -⟩
      · exact .of_subset rfl fun block hblock => ⟨block, hblock, rfl, rfl⟩
      · exact alloc_grows (r := (r.1, ptr)) h.marked htotal
  | reset =>
      cases hstep
      exact ⟨reset_marked h.marked, fun checkpoint hcheckpoint =>
        (h.reaches checkpoint hcheckpoint).grows reset_grows, by simp, by simp, List.Pairwise.nil⟩
  | clear =>
      cases hstep
      exact ⟨clear_marked h.marked, fun checkpoint hcheckpoint =>
        (h.reaches checkpoint hcheckpoint).grows clear_grows, by simp, by simp, List.Pairwise.nil⟩
  | checkpoint =>
      cases hstep
      refine ⟨h.marked, List.forall_mem_cons.mpr ⟨⟨?_, fun block hblock hid => ?_⟩, h.reaches⟩,
        h.filled, h.aligned, h.apart⟩
      · exact h.marked.ids_lt _ (mem_chain_of_begun current_mem_begun)
      · have hcurrent : s.arena.current ∈ s.arena.chain := mem_chain_of_begun current_mem_begun
        rw [List.inj_on_of_nodup_map h.marked.ids hblock hcurrent hid]
        exact h.marked.used_le _ hcurrent
  | restore i =>
      simp only [step] at hstep
      split at hstep
      · cases hstep
        exact h
      · rename_i checkpoint hcheckpoint
        obtain ⟨restored, hrestore, rfl⟩ := Option.map_eq_some_iff.mp hstep
        have hreached := h.reaches checkpoint (List.mem_of_getElem? hcheckpoint)
        refine ⟨restore_marked h.marked hreached.used_le (fun henabled => ?_) hrestore,
          fun other hother => (h.reaches other hother).grows (restore_grows hrestore),
          fun a ha => ?_, fun a ha => h.aligned a (List.mem_of_mem_filter ha), h.apart.filter _⟩
        · exact hfits henabled checkpoint hcheckpoint
        · obtain ⟨block, hblock, hinside⟩ := of_decide_eq_true (List.mem_filter.mp ha).2
          obtain ⟨before, found, behind, -, -, rfl⟩ := restore_eq hrestore
          exact ⟨block, hblock, hinside⟩

/-- Allocations are sound in every state of a run in which no sum or product wraps around. -/
theorem stays_sound {initialSize quota addr : UInt64} {arena : Arena} {calls : List ArenaCall}
    (hcreate : createWithQuota initialSize quota addr = some arena)
    (hfits : StepsFit step Fits arena.start calls) :
    Stays step Sound arena.start calls := by
  have hordered : Stays step Ordered arena.start calls := by
    refine stays_of_stepsFit (fun s call after h hfits hstep => step_ordered h hfits hstep) ?_ hfits
    exact ⟨createWithQuota_marked hcreate, by simp [start], by simp [start], by simp [start],
      List.Pairwise.nil⟩
  exact hordered.mono fun s h => h.sound

theorem stays_sound_small :
    Stays step Sound smallArena.start
      [.alloc 17 none, .checkpoint, .allocAligned 100 6 (some 8192),
        .alloc 0x8000000000000000 none, .restore 0, .allocAligned 16 4 none, .reset,
        .alloc 0x4000000000000000 (some 1048576)] :=
  stays_sound createWithQuota_small (by decide +kernel)

/-- The largest size is rounded up to 0. -/
theorem alloc_largest_unsound :
    createWithQuota 64 0 4096 = some smallArena ∧
      ¬ Stays step Sound smallArena.start [.alloc 0xFFFFFFFFFFFFFFFF none] := by
  refine ⟨createWithQuota_small, fun hstays => ?_⟩
  have hsound := hstays.foldlM (Option.some_get (by decide +kernel)).symm
  have hinside := hsound.inside
  revert hinside
  decide +kernel

end ArenaRun

end Memory
end InventixDB
