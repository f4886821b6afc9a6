import InventixDB.Memory.Session

/-!
# Balance of quotas

A granted size is counted once, and a refused one not at all, just where no sum wraps around and
what the quota admits gets memory.
-/

namespace InventixDB
namespace Memory

open Lib

/-! ## Who gets memory -/

namespace Pool

variable {pool after : Pool} {live : List UInt64} {answer result : Option UInt64}

/-- A block is free, or `malloc` has memory for an expansion. -/
def Ready (pool : Pool) (answer : Option UInt64) : Prop :=
  (∃ p ∈ pool.chain, p.freeList ≠ 0) ∨ (pool.root.canExpand = true ∧ answer.isSome)

instance (pool : Pool) (answer : Option UInt64) : Decidable (pool.Ready answer) :=
  inferInstanceAs (Decidable ((∃ _ ∈ _, _) ∨ _))

theorem take_eq_none : pool.take = none ↔ ∀ p ∈ pool.chain, p.freeList = 0 := by
  have hrest : takeExpansion pool.words pool.expansions = none ↔ _ := takeExpansion_eq_none
  rw [chain, List.forall_mem_cons, ← hrest, take]
  dsimp only
  split
  · rename_i hfree
    exact iff_of_false (by simp) fun hall => hfree hall.1
  · rename_i hfree
    rw [Option.map_eq_none_iff]
    exact (and_iff_right (not_not.mp hfree)).symm

theorem take_ne_none : pool.take ≠ none ↔ ∃ p ∈ pool.chain, p.freeList ≠ 0 := by
  rw [Ne, take_eq_none, not_forall₂]
  exact exists_congr fun p => exists_prop

theorem expand_eq_none (hexpand : pool.expand answer = some none) : answer = none := by
  obtain ⟨created, hcreate, hnone⟩ := Option.map_eq_some_iff.mp hexpand
  cases Option.map_eq_none_iff.mp hnone
  cases answer with
  | none => rfl
  | some addr =>
      unfold poolCreateNamed at hcreate
      dsimp only at hcreate
      rcases ite_eq_iff.mp hcreate with ⟨-, hnew⟩ | ⟨-, hnew⟩
      · cases hnew
      · cases hnew

/-- `pool_alloc` returns a block just if it is ready to. -/
theorem alloc_isSome_iff (h : pool.Sharing live)
    (halloc : pool.alloc [answer] = some (after, result)) :
    result.isSome ↔ pool.Ready answer := by
  cases htake : pool.take with
  | some taken =>
      rw [alloc_of_take htake] at halloc
      cases halloc
      have hready : pool.Ready answer := .inl (take_ne_none.mp (by rw [htake]; simp))
      exact iff_of_true rfl hready
  | none =>
      have hfull : ¬ ∃ p ∈ pool.chain, p.freeList ≠ 0 := fun hfree => take_ne_none.mpr hfree htake
      rw [alloc_cons_of_full htake] at halloc
      rw [Ready, or_iff_right hfull]
      split at halloc
      · rename_i hexpands
        obtain ⟨expanded, hexpand, hrest⟩ := Option.bind_eq_some_iff.mp halloc
        cases expanded with
        | none =>
            cases hrest
            rw [expand_eq_none hexpand]
            simp
        | some expanded =>
            obtain ⟨taken, htaken⟩ := Option.ne_none_iff_exists'.mp (expand_spec h hexpand).2.2
            rw [Option.elim_some, alloc_of_take htaken] at hrest
            cases hrest
            refine iff_of_true rfl ⟨hexpands, ?_⟩
            rw [Option.isSome_iff_ne_none]
            rintro rfl
            cases hexpand
      · rename_i hexpands
        cases halloc
        exact iff_of_false (by simp) fun hready => hexpands hready.1

end Pool

/-- `arena_alloc` returns a pointer just if the request is not refused. -/
theorem Arena.alloc_isSome_iff {arena : Arena} {size : UInt64} {answer : Option UInt64}
    {r : Arena × Option UInt64} (halloc : arena.alloc size answer = some r) :
    r.2.isSome ↔ ¬ arena.Refuses size answer := by
  unfold Arena.alloc at halloc
  split at halloc
  · rename_i hzero
    cases halloc
    exact iff_of_false (by simp) (not_not.mpr (.inl hzero))
  · rename_i hsize
    dsimp only at halloc
    split at halloc
    · rename_i hover
      cases halloc
      exact iff_of_false (by simp) (not_not.mpr (.inr (.inl hover)))
    · rename_i hover
      rw [Bool.not_eq_true] at hover
      split at halloc
      · rename_i hroom
        cases halloc
        exact iff_of_true rfl (Arena.not_refuses hsize hover (.inl hroom))
      · rename_i hfull
        obtain ⟨newBlock, hcreate, rfl⟩ := Option.map_eq_some_iff.mp halloc
        cases answer with
        | none =>
            cases hcreate
            exact iff_of_false (by simp) (not_not.mpr (.inr (.inr ⟨hfull, rfl⟩)))
        | some addr =>
            have hnew := hcreate
            unfold Arena.blockCreate at hnew
            dsimp only at hnew
            rcases ite_eq_iff.mp hnew with ⟨-, hblock⟩ | ⟨-, hblock⟩
            · cases hblock
              exact iff_of_true rfl (Arena.not_refuses hsize hover (.inr (by simp)))
            · cases hblock

namespace SessionMemory

variable {mem : SessionMemory} {size : UInt64} {answer : Option UInt64}
  {r : SessionMemory × Option UInt64}

/-- The pool or the arena that is asked for this size has memory. -/
def Serves (mem : SessionMemory) (size : UInt64) (answer : Option UInt64) : Prop :=
  match (if size ≤ 64 then mem.smallPool else none) with
  | some pool => pool.Ready answer
  | none =>
      match (if size ≤ 256 then mem.mediumPool else none) with
      | some pool => pool.Ready answer
      | none => ¬ mem.arena.Refuses size answer

instance (mem : SessionMemory) (size : UInt64) (answer : Option UInt64) :
    Decidable (mem.Serves size answer) := by
  unfold Serves
  split
  · infer_instance
  · split <;> infer_instance

/-- The pools share their blocks with those they have given. -/
def Pooled (mem : SessionMemory) : Prop :=
  (∀ pool ∈ mem.smallPool, ∃ live, pool.Sharing live) ∧
    ∀ pool ∈ mem.mediumPool, ∃ live, pool.Sharing live

theorem serve_spec (h : mem.Pooled) (hserve : mem.serve size answer = some r) :
    r.1.quota = mem.quota ∧ r.1.Pooled ∧ (r.2.isSome ↔ mem.Serves size answer) := by
  unfold serve at hserve
  unfold Serves
  cases hsmall : (if size ≤ 64 then mem.smallPool else none) with
  | some pool =>
      rw [hsmall] at hserve
      obtain ⟨⟨after, ptr⟩, halloc, rfl⟩ := Option.map_eq_some_iff.mp hserve
      have hpool : mem.smallPool = some pool := by
        split at hsmall
        · exact hsmall
        · cases hsmall
      obtain ⟨live, hsharing⟩ := h.1 pool hpool
      have hafter := (Pool.alloc_spec hsharing halloc).1
      refine ⟨rfl, ⟨?_, h.2⟩, Pool.alloc_isSome_iff hsharing halloc⟩
      rintro _ ⟨⟩
      exact ⟨_, hafter⟩
  | none =>
      rw [hsmall] at hserve
      dsimp only at hserve ⊢
      cases hmedium : (if size ≤ 256 then mem.mediumPool else none) with
      | some pool =>
          rw [hmedium] at hserve
          obtain ⟨⟨after, ptr⟩, halloc, rfl⟩ := Option.map_eq_some_iff.mp hserve
          have hpool : mem.mediumPool = some pool := by
            split at hmedium
            · exact hmedium
            · cases hmedium
          obtain ⟨live, hsharing⟩ := h.2 pool hpool
          have hafter := (Pool.alloc_spec hsharing halloc).1
          refine ⟨rfl, ⟨h.1, ?_⟩, Pool.alloc_isSome_iff hsharing halloc⟩
          rintro _ ⟨⟩
          exact ⟨_, hafter⟩
      | none =>
          rw [hmedium] at hserve
          obtain ⟨⟨after, ptr⟩, halloc, rfl⟩ := Option.map_eq_some_iff.mp hserve
          exact ⟨rfl, h, Arena.alloc_isSome_iff halloc⟩

theorem charge_cases (mem : SessionMemory) (size : UInt64) :
    (mem.quota = none ∧ mem.charge size = some mem) ∨
    ∃ quota, mem.quota = some quota ∧
      ((¬ quota.Admits size ∧ mem.charge size = none) ∨
        (quota.Admits size ∧ ∃ charged : MemQuota, charged.used = quota.used + size ∧
          charged.limit = quota.limit ∧
          mem.charge size = some { mem with quota := some charged })) := by
  unfold charge
  cases hquota : mem.quota with
  | none => exact .inl ⟨rfl, rfl⟩
  | some quota =>
      refine .inr ⟨quota, rfl, ?_⟩
      dsimp only [MemQuota.request]
      by_cases hadmits : quota.Admits size
      · refine .inr ⟨hadmits, ?_⟩
        rw [if_neg (UInt64.not_lt.mpr hadmits)]
        refine ⟨_, ?_, ?_, rfl⟩
        · rfl
        · rfl
      · refine .inl ⟨hadmits, ?_⟩
        rw [if_pos (UInt64.not_le.mp hadmits)]
        rfl

theorem charge_eq {charged : SessionMemory} (hcharge : mem.charge size = some charged) :
    ∃ quota, charged = { mem with quota := quota } := by
  rcases mem.charge_cases size with ⟨-, hsame⟩ | ⟨quota, -, hcases⟩
  · cases hsame.symm.trans hcharge
    exact ⟨mem.quota, rfl⟩
  · rcases hcases with ⟨-, hnone⟩ | ⟨-, new, -, -, hnew⟩
    · cases hnone.symm.trans hcharge
    · cases hnew.symm.trans hcharge
      exact ⟨some new, rfl⟩

end SessionMemory

/-! ## Steps -/

namespace SessionRun

open SessionMemory

variable {s after : SessionRun} {call : SessionCall}

/-- The sum of a granted size does not wrap around, and nothing is charged for an allocation that is
not made. -/
def Pays (quota : MemQuota) (size : UInt64) (served : Prop) : Prop :=
  quota.Admits size →
    (served ∧ quota.used.toNat + size.toNat < 2 ^ 64) ∨ (¬ served ∧ size = 0)

/-- What the quota admits is paid for. -/
def Fits (s : SessionRun) : SessionCall → Prop
  | .request size => ∀ quota ∈ s.mem.quota, Pays quota size True
  | .release _ => True
  | .alloc size answer => ∀ quota ∈ s.mem.quota, Pays quota size (s.mem.Serves size answer)
  | .allocQuery size answer =>
      ∀ quota ∈ s.mem.quota, Pays quota size (¬ s.mem.queryArena.Refuses size answer)

instance (quota : MemQuota) (size : UInt64) (served : Prop) [Decidable served] :
    Decidable (Pays quota size served) :=
  inferInstanceAs (Decidable (_ → _))

instance (s : SessionRun) : (call : SessionCall) → Decidable (s.Fits call)
  | .request _ => inferInstanceAs (Decidable (∀ _ ∈ _, _))
  | .release _ => isTrue trivial
  | .alloc _ _ => inferInstanceAs (Decidable (∀ _ ∈ _, _))
  | .allocQuery _ _ => inferInstanceAs (Decidable (∀ _ ∈ _, _))

/-- A charge keeps the balance just if it is paid for. -/
theorem balanced_charge_iff {quota charged : MemQuota} {size : UInt64} {served : Prop}
    (hbalanced : s.Balanced) (hquota : s.mem.quota = some quota) (hadmits : quota.Admits size)
    (hused : charged.used = quota.used + size) (hlimit : charged.limit = quota.limit)
    (hafter : after.mem.quota = some charged)
    (hserved : served → after.granted = size :: s.granted)
    (hrefused : ¬ served → after.granted = s.granted) :
    after.Balanced ↔ Pays quota size served := by
  obtain ⟨-, hsum⟩ := hbalanced quota hquota
  have hwithin : charged.used ≤ charged.limit := by
    rw [hused, hlimit]
    exact hadmits
  have hcharged : charged.used.toNat = (quota.used.toNat + size.toNat) % 2 ^ 64 := by
    rw [hused, UInt64.toNat_add]
  have hlt := quota.used.toNat_lt
  have hlt' := size.toNat_lt
  have hafter' : after.Balanced ↔ charged.used.toNat = (after.granted.map UInt64.toNat).sum := by
    unfold Balanced
    rw [hafter]
    simp [hwithin]
  rw [hafter', hcharged]
  by_cases hnow : served
  · rw [hserved hnow, List.map_cons, List.sum_cons, ← hsum]
    constructor
    · intro hsame _
      exact .inl ⟨hnow, by omega⟩
    · intro hpays
      have hfits := ((hpays hadmits).resolve_right fun hno => hno.1 hnow).2
      rw [Nat.mod_eq_of_lt hfits]
      exact Nat.add_comm _ _
  · rw [hrefused hnow, ← hsum]
    constructor
    · intro hsame _
      have hzero : size.toNat = 0 := by omega
      exact .inr ⟨hnow, UInt64.toNat_inj.mp hzero⟩
    · intro hpays
      have hzero := ((hpays hadmits).resolve_left fun hyes => hnow hyes.1).2
      rw [hzero, UInt64.toNat_zero, Nat.add_zero]
      exact Nat.mod_eq_of_lt hlt

theorem release_balanced (h : s.Balanced) {size : UInt64} (hsize : size ∈ s.granted) :
    Balanced
      { mem := { s.mem with quota := s.mem.quota.map fun quota => quota.release size }
        granted := s.granted.erase size } := by
  intro released hreleased
  obtain ⟨quota, hquota, rfl⟩ := Option.map_eq_some_iff.mp hreleased
  obtain ⟨hlimit, hsum⟩ := h quota hquota
  have herase := ((List.perm_cons_erase hsize).map UInt64.toNat).sum_eq
  rw [List.map_cons, List.sum_cons, ← hsum] at herase
  have hle : size ≤ quota.used := by
    rw [UInt64.le_iff_toNat_le]
    omega
  rw [MemQuota.release, if_neg (UInt64.not_lt.mpr hle)]
  have hused : (quota.used - size).toNat = quota.used.toNat - size.toNat :=
    UInt64.toNat_sub_of_le _ _ hle
  constructor
  · rw [UInt64.le_iff_toNat_le] at hlimit ⊢
    change (quota.used - size).toNat ≤ quota.limit.toNat
    omega
  · change (quota.used - size).toNat = ((s.granted.erase size).map UInt64.toNat).sum
    omega

/-- An allocation, by whoever serves it. -/
theorem allocated_balanced_iff {size : UInt64} {served : Prop} {mem : SessionMemory}
    {r : SessionMemory × Option UInt64} (hbalanced : s.Balanced)
    (hcharge : s.mem.charge size = some mem) (hquota : r.1.quota = mem.quota)
    (hserved : r.2.isSome ↔ served) :
    (s.allocated size r).Balanced ↔ ∀ quota ∈ s.mem.quota, Pays quota size served := by
  rcases s.mem.charge_cases size with ⟨hnone, hsame⟩ | ⟨quota, hsome, hcases⟩
  · rw [hsame] at hcharge
    cases hcharge
    refine iff_of_true (fun quota hmem => ?_) (fun quota hmem => ?_)
    · cases (hquota.trans hnone).symm.trans hmem
    · cases hnone.symm.trans hmem
  · rcases hcases with ⟨-, hrefused⟩ | ⟨hadmits, charged, hused, hlimit, hcharged⟩
    · cases hrefused.symm.trans hcharge
    · cases hcharged.symm.trans hcharge
      have hyes : served → (s.allocated size r).granted = size :: s.granted := fun hserve =>
        if_pos (hserved.mpr hserve)
      have hno : ¬ served → (s.allocated size r).granted = s.granted := fun hserve =>
        if_neg (mt hserved.mp hserve)
      have hiff := balanced_charge_iff hbalanced hsome hadmits hused hlimit hquota hyes hno
      rw [hiff, hsome]
      exact ⟨fun hpays other hother => by cases hother; exact hpays, fun hall => hall quota rfl⟩

/-- A quota that does not admit a size is not charged. -/
theorem pays_of_refused {size : UInt64} (served : Prop) (hcharge : s.mem.charge size = none) :
    ∀ quota ∈ s.mem.quota, Pays quota size served := by
  intro quota hquota hadmits
  rcases s.mem.charge_cases size with ⟨-, hsame⟩ | ⟨other, hother, hcases⟩
  · cases hcharge.symm.trans hsame
  · cases hother.symm.trans hquota
    rcases hcases with ⟨hrefuses, -⟩ | ⟨-, charged, -, -, hcharged⟩
    · exact absurd hadmits hrefuses
    · cases hcharge.symm.trans hcharged

/-- A step keeps the balance just if what the quota admits is paid for. -/
theorem step_balanced (h : s.mem.Pooled) (hstep : s.step call = some after) :
    after.mem.Pooled ∧ (s.Balanced → (after.Balanced ↔ s.Fits call)) := by
  cases call with
  | request size =>
      rw [step] at hstep
      cases hcharge : s.mem.charge size with
      | none =>
          rw [hcharge] at hstep
          cases hstep
          exact ⟨h, fun hbalanced => iff_of_true hbalanced (pays_of_refused True hcharge)⟩
      | some charged =>
          rw [hcharge] at hstep
          cases hstep
          obtain ⟨quota, rfl⟩ := charge_eq hcharge
          refine ⟨h, fun hbalanced => ?_⟩
          -- A request is granted as an allocation is that gets memory.
          exact allocated_balanced_iff (r := (_, some 0)) hbalanced hcharge rfl
            (iff_of_true rfl trivial)
  | release size =>
      rw [step] at hstep
      split at hstep
      · rename_i hsize
        cases hstep
        exact ⟨h, fun hbalanced => iff_of_true (release_balanced hbalanced hsize) trivial⟩
      · cases hstep
  | alloc size answer =>
      obtain ⟨r, halloc, rfl⟩ := Option.map_eq_some_iff.mp hstep
      rw [sessionAlloc] at halloc
      cases hcharge : s.mem.charge size with
      | none =>
          rw [hcharge] at halloc
          cases halloc
          exact ⟨h, fun hbalanced => iff_of_true hbalanced (pays_of_refused _ hcharge)⟩
      | some charged =>
          rw [hcharge] at halloc
          obtain ⟨quota, rfl⟩ := charge_eq hcharge
          have hcharged : Pooled { s.mem with quota := quota } := h
          obtain ⟨hquota, hpooled, hserved⟩ := serve_spec hcharged halloc
          exact ⟨hpooled, fun hbalanced => allocated_balanced_iff hbalanced hcharge hquota hserved⟩
  | allocQuery size answer =>
      obtain ⟨r, halloc, rfl⟩ := Option.map_eq_some_iff.mp hstep
      rw [sessionAllocQuery] at halloc
      cases hcharge : s.mem.charge size with
      | none =>
          rw [hcharge] at halloc
          cases halloc
          exact ⟨h, fun hbalanced => iff_of_true hbalanced (pays_of_refused _ hcharge)⟩
      | some charged =>
          rw [hcharge] at halloc
          obtain ⟨quota, rfl⟩ := charge_eq hcharge
          obtain ⟨⟨arena, ptr⟩, hserve, rfl⟩ := Option.map_eq_some_iff.mp halloc
          refine ⟨h, fun hbalanced => ?_⟩
          exact allocated_balanced_iff hbalanced hcharge rfl (Arena.alloc_isSome_iff hserve)

/-! ## Sessions from their start -/

theorem newPool_sharing {words : Words} {blockSize blockCount : UInt64} {answer : Option UInt64}
    (hfits : Pool.SizesFit blockSize blockCount) {created : Option Pool}
    (hnew : newPool words blockSize blockCount answer = some created) :
    ∀ pool ∈ created, ∃ live, pool.Sharing live := by
  obtain ⟨made, hmade, rfl⟩ := Option.map_eq_some_iff.mp hnew
  intro pool hpool
  obtain ⟨⟨root, words'⟩, rfl, rfl⟩ := Option.map_eq_some_iff.mp hpool
  exact ⟨[], PoolRun.start_sharing hfits hmade⟩

/-- A session that nothing was granted from. -/
def start (mem : SessionMemory) : SessionRun where
  mem := mem
  granted := []

theorem start_spec {quotaLimit addr queryAddr : UInt64} {words : Words}
    {small medium : Option UInt64} {mem : SessionMemory}
    (hcreate : sessionMemoryCreate quotaLimit words addr queryAddr small medium = some mem) :
    mem.Pooled ∧ (start mem).Balanced := by
  obtain ⟨arena, -, hquery⟩ := Option.bind_eq_some_iff.mp hcreate
  obtain ⟨queryArena, -, hsmall⟩ := Option.bind_eq_some_iff.mp hquery
  obtain ⟨smallPool, hsmallPool, hmedium⟩ := Option.bind_eq_some_iff.mp hsmall
  obtain ⟨mediumPool, hmediumPool, rfl⟩ := Option.map_eq_some_iff.mp hmedium
  refine ⟨⟨newPool_sharing (by decide +kernel) hsmallPool,
    newPool_sharing (by decide +kernel) hmediumPool⟩, fun quota hquota => ?_⟩
  change quota ∈ (if quotaLimit > 0 then some (MemQuota.create quotaLimit) else none) at hquota
  split at hquota
  · cases hquota
    exact ⟨UInt64.zero_le, rfl⟩
  · cases hquota

/-- The quota is balanced in every state of just those runs that pay for all it admits. -/
theorem stays_quotaBalanced_iff {quotaLimit addr queryAddr : UInt64} {words : Words}
    {small medium : Option UInt64} {mem : SessionMemory} {calls : List SessionCall}
    (hcreate : sessionMemoryCreate quotaLimit words addr queryAddr small medium = some mem)
    (hrun : calls.foldlM step (start mem) = some after) :
    Stays step Balanced (start mem) calls ↔ StepsFit step Fits (start mem) calls := by
  obtain ⟨hpooled, hbalanced⟩ := start_spec hcreate
  rw [stays_iff_stepsFit (I := fun s => s.mem.Pooled)
    (fun s call after h hstep => (step_balanced h hstep).1)
    (fun s call after h hbalanced hstep => (step_balanced h hstep).2 hbalanced) hpooled hrun]
  exact and_iff_right hbalanced

/-- A session with a limit of 100000 bytes. -/
def limited : Option SessionMemory :=
  sessionMemoryCreate 100000 (fun _ => 0) 0x10000 0x30000 (some 0x40000) (some 0x50000)

theorem limited_isSome : limited.isSome := by
  decide +kernel

theorem stays_quotaBalanced_limited :
    Stays step Balanced (start (limited.get limited_isSome))
      [.request 10, .alloc 60 none, .alloc 100 none, .release 10, .alloc 90000 (some 0x100000),
        .allocQuery 20000 none] := by
  refine (stays_quotaBalanced_iff (Option.some_get limited_isSome).symm
    (Option.some_get ?_).symm).mpr ?_
  · decide +kernel
  · decide +kernel

/-- A request that wraps around is granted, and an allocation that is refused for want of memory is
charged. -/
theorem quota_unbalanced :
    ¬ Stays step Balanced (start (limited.get limited_isSome))
        [.request 10, .request 0xFFFFFFFFFFFFFFFA] ∧
      ¬ Stays step Balanced (start (limited.get limited_isSome)) [.allocQuery 20000 none] := by
  constructor
  · intro hstays
    have hbalanced := hstays.foldlM (Option.some_get (by decide +kernel)).symm
    revert hbalanced
    decide +kernel
  · intro hstays
    have hbalanced := hstays.foldlM (Option.some_get (by decide +kernel)).symm
    revert hbalanced
    decide +kernel

end SessionRun

end Memory
end InventixDB
