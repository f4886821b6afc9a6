import InventixDB.Memory.ArenaSoundness

/-!
# Checkpoints of an arena

Allocations move the current mark and append blocks.  To restore a checkpoint frees the blocks that
were appended since and sets the mark back, so that what is used is what was used before, whatever
sums have wrapped around.  Allocations of before are safe behind it as long as no mark ever moved
back.
-/

namespace InventixDB
namespace Memory

open Lib

namespace Arena

variable {arena after : Arena}

/-! ## What is used -/

variable (arena) in
/-- What holds of every arena that can be reached. -/
structure Summed : Prop where
  accounted : arena.Accounted
  numbered : arena.Numbered
  after_eq : ∀ block ∈ arena.after, block.used = 0
  total_eq : arena.totalUsed.toNat = sumUsed arena.begun % 2 ^ 64

/-- What `arena_alloc` can do to an arena. -/
inductive Moves (arena : Arena) : Arena → Prop
  | stay : Moves arena arena
  | bump (size : UInt64) : Moves arena (arena.bump size)
  | extend (size : UInt64) (newBlock : ArenaBlock) (hid : newBlock.id = arena.created)
      (hstop : newBlock.region.stop < 2 ^ 64)
      (hapart : ∀ block ∈ arena.blocks, block.region.Apart newBlock.region) :
      Moves arena (arena.extend size newBlock)

theorem alloc_moves (h : arena.Accounted) {size : UInt64} {answer : Option UInt64}
    {r : Arena × Option UInt64} (halloc : arena.alloc size answer = some r) : arena.Moves r.1 := by
  rcases alloc_cases halloc with ⟨-, rfl⟩ | ⟨-, -, -, -, rfl⟩ | ⟨-, newBlock, hcreate, rfl⟩
  · exact .stay
  · exact .bump _
  · obtain ⟨hid, -, hstop, hapart⟩ :=
      blockCreate_spec (header_add_newSize_lt h.default_le size) hcreate
    exact .extend _ newBlock hid hstop hapart

theorem Moves.summed (hmoves : arena.Moves after) (h : arena.Summed) : after.Summed := by
  have htotal := h.total_eq
  rw [begun, sumUsed_append, sumUsed_cons, sumUsed_nil] at htotal
  cases hmoves with
  | stay => exact h
  | bump size =>
      refine ⟨bump_accounted h.accounted size, bump_numbered h.numbered size, h.after_eq, ?_⟩
      change (arena.totalUsed + size).toNat
        = sumUsed (arena.before ++ [{ arena.current with used := arena.current.used + size }]) % _
      rw [sumUsed_append, sumUsed_cons, sumUsed_nil, UInt64.toNat_add, UInt64.toNat_add]
      omega
  | extend size newBlock hid hstop hapart =>
      refine ⟨extend_accounted h.accounted size hstop hapart, extend_numbered h.numbered size hid,
        by simp [Arena.extend, count], ?_⟩
      change (arena.totalUsed + size).toNat
        = sumUsed (arena.before ++ [arena.current] ++ [{ newBlock with used := size }]) % _
      rw [sumUsed_append, sumUsed_append, sumUsed_cons, sumUsed_cons, sumUsed_nil, UInt64.toNat_add]
      dsimp only
      omega

theorem Moves.created_le (hmoves : arena.Moves after) : arena.created ≤ after.created := by
  cases hmoves with
  | stay => exact le_rfl
  | bump size => exact le_rfl
  | extend size newBlock _ _ _ => exact Nat.le_succ _

theorem reset_summed (h : arena.Summed) : arena.reset.Summed := by
  have haccounted := reset_accounted h.accounted
  have hnumbered := reset_numbered h.numbered
  obtain ⟨first, rest, hchain, hreset⟩ := arena.reset_eq
  have hzero : ∀ block ∈ first :: rest, block.used = 0 := by
    rw [← hchain]
    exact List.forall_mem_map.mpr fun block _ => rfl
  obtain ⟨hfirst, hrest⟩ := List.forall_mem_cons.mp hzero
  rw [hreset] at haccounted hnumbered ⊢
  refine ⟨haccounted, hnumbered, hrest, ?_⟩
  change 0 = sumUsed [first] % 2 ^ 64
  rw [sumUsed_eq_zero (List.forall_mem_singleton.mpr hfirst)]
  rfl

theorem clear_summed (h : arena.Summed) : arena.clear.Summed := by
  have haccounted := (clear_accounted h.accounted).1
  have hnumbered := clear_numbered h.numbered
  unfold clear at haccounted hnumbered ⊢
  split at haccounted
  · exact h
  · rename_i first rest hchain
    simp only [hchain] at hnumbered ⊢
    exact ⟨haccounted, hnumbered, by simp, rfl⟩

theorem restore_summed (h : arena.Summed) {checkpoint : ArenaCheckpoint} {restored : Arena}
    (hrestore : arena.restore checkpoint = some restored) : restored.Summed := by
  have haccounted := (restore_accounted h.accounted hrestore).1
  have hnumbered := restore_numbered h.numbered hrestore
  obtain ⟨before, block, behind, -, -, rfl⟩ := restore_eq hrestore
  refine ⟨haccounted, hnumbered, by simp, ?_⟩
  have hsum := foldl_used (before ++ [{ block with used := checkpoint.used }]) 0
  rw [UInt64.toNat_zero, Nat.zero_add] at hsum
  exact hsum

/-! ## Back to a checkpoint -/

/-- Up to the block that was current, only its mark is new. -/
inductive Opened (arena : Arena) (after : Arena) : Prop
  | here (used : UInt64) (hbefore : after.before = arena.before)
      (hcurrent : after.current = { arena.current with used := used })
  | further (used : UInt64) (more : List ArenaBlock)
      (hbefore : after.before = arena.before ++ { arena.current with used := used } :: more)

theorem Opened.moves {last : Arena} (h : arena.Opened after) (hmoves : after.Moves last) :
    arena.Opened last := by
  cases hmoves with
  | stay => exact h
  | bump size =>
      cases h with
      | here used hbefore hcurrent =>
          refine .here (used + size) hbefore ?_
          change { after.current with used := after.current.used + size } = _
          rw [hcurrent]
      | further used more hbefore => exact .further used more hbefore
  | extend size newBlock _ _ _ =>
      cases h with
      | here used hbefore hcurrent =>
          refine .further used [] ?_
          change after.before ++ [after.current] = _
          rw [hbefore, hcurrent]
      | further used more hbefore =>
          refine .further used (more ++ [after.current]) ?_
          change after.before ++ [after.current] = _
          rw [hbefore]
          simp

theorem Opened.chain_eq (h : arena.Opened after) : ∃ used behind,
    after.chain = arena.before ++ { arena.current with used := used } :: behind := by
  cases h with
  | here used hbefore hcurrent => exact ⟨used, after.after, by rw [chain, hbefore, hcurrent]⟩
  | further used more hbefore =>
      refine ⟨used, more ++ after.current :: after.after, ?_⟩
      rw [chain, hbefore]
      simp

theorem splitAt_of_nodup {before behind : List ArenaBlock} {block : ArenaBlock}
    (hids : ((before ++ block :: behind).map ArenaBlock.id).Nodup) :
    splitAt block.id (before ++ block :: behind) = some (before, block, behind) := by
  induction before with
  | nil => exact if_pos rfl
  | cons first before ih =>
      rw [List.cons_append, List.map_cons, List.nodup_cons] at hids
      have hother : first.id ≠ block.id := fun hsame =>
        hids.1 (hsame ▸ List.mem_map_of_mem (List.mem_append_right _ List.mem_cons_self))
      rw [List.cons_append, splitAt, if_neg hother, ih hids.2]
      rfl

/-- To restore a checkpoint brings back the blocks that were there, with their marks. -/
theorem restore_checkpoint (h : arena.Summed) (hopened : arena.Opened after)
    (hafter : after.Summed) : ∃ restored, after.restore arena.checkpoint = some restored ∧
      restored.begun = arena.begun ∧ restored.after = [] ∧ restored.created = after.created ∧
      restored.totalUsed = arena.totalUsed := by
  obtain ⟨used, behind, hchain⟩ := hopened.chain_eq
  have hids := hafter.numbered.ids
  rw [hchain] at hids
  have hsplit := splitAt_of_nodup hids
  rw [← hchain] at hsplit
  change splitAt arena.checkpoint.block after.chain = _ at hsplit
  obtain ⟨restored, hrestore⟩ := Option.isSome_iff_exists.mp
    (show (after.restore arena.checkpoint).isSome by rw [restore, hsplit]; rfl)
  have hsummed := restore_summed hafter hrestore
  have hbegun : restored.begun = arena.begun ∧ restored.after = [] ∧
      restored.created = after.created := by
    obtain ⟨total, count, hfreed⟩ := after.destroy_eq behind
    rw [restore, hsplit, Option.map_some] at hrestore
    dsimp only at hrestore
    rw [hfreed] at hrestore
    cases hrestore
    exact ⟨rfl, rfl, rfl⟩
  refine ⟨restored, hrestore, hbegun.1, hbegun.2.1, hbegun.2.2, UInt64.toNat_inj.mp ?_⟩
  rw [hsummed.total_eq, h.total_eq, hbegun.1]

/-! ## Without a quota -/

variable (arena) in
/-- The same arena, without a quota. -/
def unlimited : Arena :=
  { arena with quotaEnabled := false }

/-- What the quota admits is admitted without a quota, too. -/
theorem alloc_unlimited {size : UInt64} {answer : Option UInt64} {r : Arena × Option UInt64}
    (halloc : arena.alloc size answer = some r) :
    r = (arena, none) ∨
      (arena.unlimited.alloc size answer = some (r.1.unlimited, r.2) ∧
        (arena.Representable size answer → arena.unlimited.Representable size answer) ∧
        ¬ arena.Refuses size answer) := by
  have hunlimited : arena.unlimited.overQuota (alignUp size memAlignment) = false := rfl
  rcases alloc_cases halloc with
    ⟨-, rfl⟩ | ⟨-, hsize, hover, hroom, rfl⟩ | ⟨hopens, newBlock, hcreate, rfl⟩
  · exact .inl rfl
  · have hadmits : ¬ arena.Refuses size answer := not_refuses hsize hover (.inl hroom)
    refine .inr ⟨?_, fun hfits => .inr (hfits.resolve_left hadmits), hadmits⟩
    rw [alloc, if_neg hsize]
    dsimp only
    rw [hunlimited, if_neg Bool.false_ne_true]
    exact if_pos hroom
  · obtain ⟨hsize, hover, hfull, hanswer⟩ := hopens
    have hadmits : ¬ arena.Refuses size answer := by
      refine not_refuses hsize hover (.inr ?_)
      rintro rfl
      cases hanswer
    refine .inr ⟨?_, fun hfits => .inr (hfits.resolve_left hadmits), hadmits⟩
    rw [alloc, if_neg hsize]
    dsimp only
    rw [hunlimited, if_neg Bool.false_ne_true]
    refine (if_neg hfull).trans ?_
    change Option.map _ (blockCreate arena.blocks arena.created
      (arena.newSize (alignUp size memAlignment)) answer) = _
    rw [hcreate]
    rfl

theorem allocAligned_unlimited {size : UInt64} {k : Fin 64} {answer : Option UInt64}
    {r : Arena × Option UInt64}
    (halloc : arena.allocAligned size (UInt64.ofNat (2 ^ k.val)) answer = some r) :
    r = (arena, none) ∨
      (arena.unlimited.allocAligned size (UInt64.ofNat (2 ^ k.val)) answer
          = some (r.1.unlimited, r.2) ∧
        (arena.Representable (size + UInt64.ofNat (2 ^ k.val)) answer →
          arena.unlimited.Representable (size + UInt64.ofNat (2 ^ k.val)) answer) ∧
        ¬ arena.Refuses (size + UInt64.ofNat (2 ^ k.val)) answer) := by
  obtain ⟨after, aligned⟩ := r
  rcases ArenaRun.allocAligned_cases halloc with ⟨-, hnone⟩ | ⟨hsize, ptr, htotal, hptr⟩
  · exact .inl hnone
  · rcases alloc_unlimited htotal with hnone | ⟨hfree, hfits, hadmits⟩
    · cases hnone
      exact .inl (congrArg (Prod.mk after) hptr)
    · refine .inr ⟨?_, hfits, hadmits⟩
      rw [allocAligned, if_neg hsize]
      dsimp only
      rw [if_neg (by simp [ArenaRun.pow_and_sub_one]), hfree]
      exact congrArg (fun ptr => some (after.unlimited, ptr)) hptr.symm

theorem reset_unlimited (arena : Arena) : arena.unlimited.reset = arena.reset.unlimited := by
  obtain ⟨before, current, _, _, _, _, _, _, _, _, _, _, _⟩ := arena
  cases before with
  | nil => rfl
  | cons first before => rfl

theorem destroy_unlimited (arena : Arena) (freed : List ArenaBlock) :
    arena.unlimited.destroy freed = (arena.destroy freed).unlimited := by
  induction freed generalizing arena with
  | nil => rfl
  | cons block freed ih =>
      exact ih { arena with
        totalAllocated := arena.totalAllocated - block.size
        blockCount := arena.blockCount - 1 }

theorem clear_unlimited (arena : Arena) : arena.unlimited.clear = arena.clear.unlimited := by
  obtain ⟨first, rest, hchain⟩ := arena.chain_eq_cons
  have hsame : arena.unlimited.chain = first :: rest := hchain
  unfold clear
  rw [hchain, hsame]
  dsimp only
  rw [destroy_unlimited]
  rfl

theorem restore_unlimited (arena : Arena) (checkpoint : ArenaCheckpoint) :
    arena.unlimited.restore checkpoint = (arena.restore checkpoint).map unlimited := by
  unfold restore
  rw [Option.map_map]
  refine congrArg (Option.map · _) (funext fun (before, block, behind) => ?_)
  dsimp only [Function.comp]
  rw [destroy_unlimited]
  rfl

end Arena

/-! ## Runs -/

/-- `arena_alloc` or `arena_alloc_aligned` -/
def ArenaCall.Allocates : ArenaCall → Prop
  | .alloc _ _ => True
  | .allocAligned _ _ _ => True
  | _ => False

namespace ArenaRun

open Arena

variable {s after : ArenaRun} {call : ArenaCall}

/-- No sum or product of an allocation wraps around. -/
def AddsUp (s : ArenaRun) : ArenaCall → Prop
  | .alloc size answer => s.Fits (.alloc size answer)
  | .allocAligned size k answer => s.Fits (.allocAligned size k answer)
  | _ => True

instance (s : ArenaRun) : (call : ArenaCall) → Decidable (s.AddsUp call)
  | .alloc size answer => inferInstanceAs (Decidable (s.Fits (.alloc size answer)))
  | .allocAligned size k answer =>
      inferInstanceAs (Decidable (s.Fits (.allocAligned size k answer)))
  | .restore _ => isTrue trivial
  | .reset => isTrue trivial
  | .clear => isTrue trivial
  | .checkpoint => isTrue trivial

/-- A checkpoint, allocations and the way back to the checkpoint give back what was used, and what
is allocated `later` lies apart from what was allocated before. -/
def RestoresExactly (s : ArenaRun) (between later : List ArenaCall) : Prop :=
  ∀ filled, (.checkpoint :: between).foldlM step s = some filled →
    ∃ restored, filled.step (.restore 0) = some restored ∧
      restored.arena.totalUsed = s.arena.totalUsed ∧
      ∀ after, later.foldlM step restored = some after →
        ∃ made, after.live = made ++ restored.live ∧
          ∀ a ∈ s.live, ∀ b ∈ made, a.region.Apart b.region

/-! ## Allocations -/

/-- What an allocation does not look at: the checkpoints, and what is live. -/
theorem step_allocates (hcall : call.Allocates) (haccounted : s.arena.Accounted)
    (hstep : s.step call = some after) : s.arena.Moves after.arena ∧
      after.checkpoints = s.checkpoints ∧ ∃ made, after.live = made ++ s.live ∧
        ∀ live, { s with live := live }.step call = some { after with live := made ++ live } := by
  cases call with
  | alloc size answer =>
      obtain ⟨r, halloc, rfl⟩ := Option.map_eq_some_iff.mp hstep
      refine ⟨alloc_moves haccounted halloc, rfl, _, rfl, fun live => ?_⟩
      exact Option.map_eq_some_iff.mpr ⟨r, halloc, rfl⟩
  | allocAligned size k answer =>
      obtain ⟨r, halloc, rfl⟩ := Option.map_eq_some_iff.mp hstep
      refine ⟨?_, rfl, _, rfl, fun live => Option.map_eq_some_iff.mpr ⟨r, halloc, rfl⟩⟩
      rcases allocAligned_cases halloc with ⟨-, rfl⟩ | ⟨-, ptr, htotal, -⟩
      · exact .stay
      · exact alloc_moves (r := (r.1, ptr)) haccounted htotal
  | reset => cases hcall
  | clear => cases hcall
  | checkpoint => cases hcall
  | restore i => cases hcall

theorem step_summed (h : s.arena.Summed) (hstep : s.step call = some after) :
    after.arena.Summed := by
  cases call with
  | alloc size answer =>
      have hcall : (ArenaCall.alloc size answer).Allocates := trivial
      exact (step_allocates hcall h.accounted hstep).1.summed h
  | allocAligned size k answer =>
      have hcall : (ArenaCall.allocAligned size k answer).Allocates := trivial
      exact (step_allocates hcall h.accounted hstep).1.summed h
  | reset =>
      cases hstep
      exact reset_summed h
  | clear =>
      cases hstep
      exact clear_summed h
  | checkpoint =>
      cases hstep
      exact h
  | restore i =>
      simp only [step] at hstep
      split at hstep
      · cases hstep
        exact h
      · obtain ⟨restored, hrestore, rfl⟩ := Option.map_eq_some_iff.mp hstep
        exact restore_summed h hrestore

variable (s) in
/-- The run without a quota. -/
def unlimited : ArenaRun :=
  { s with arena := s.arena.unlimited }

/-- What the quota refuses changes nothing, and all other calls can be made without a quota. -/
theorem unlimited_ordered (h : s.unlimited.Ordered) (hfits : s.AddsUp call)
    (hstep : s.step call = some after) : after.unlimited.Ordered := by
  cases call with
  | alloc size answer =>
      obtain ⟨r, halloc, rfl⟩ := Option.map_eq_some_iff.mp hstep
      rcases alloc_unlimited halloc with rfl | ⟨hfree, hrepresentable, -⟩
      · exact h
      · have hfits' : s.unlimited.Fits (.alloc size answer) := hrepresentable hfits
        exact step_ordered h hfits' (Option.map_eq_some_iff.mpr ⟨_, hfree, rfl⟩)
  | allocAligned size k answer =>
      obtain ⟨r, halloc, rfl⟩ := Option.map_eq_some_iff.mp hstep
      rcases allocAligned_unlimited halloc with rfl | ⟨hfree, hrepresentable, hadmits⟩
      · exact h
      · have hfits' : s.unlimited.Fits (.allocAligned size k answer) := by
          intro hsize
          obtain ⟨hrounds, hsum⟩ := hfits hsize
          exact ⟨hrepresentable hrounds, .inr (hsum.resolve_left hadmits)⟩
        exact step_ordered h hfits' (Option.map_eq_some_iff.mpr ⟨_, hfree, rfl⟩)
  | reset =>
      cases hstep
      have hfits' : s.unlimited.Fits .reset := trivial
      refine step_ordered h hfits' ?_
      exact congrArg some (congrArg (ArenaRun.mk · s.checkpoints []) s.arena.reset_unlimited)
  | clear =>
      cases hstep
      have hfits' : s.unlimited.Fits .clear := trivial
      refine step_ordered h hfits' ?_
      exact congrArg some (congrArg (ArenaRun.mk · s.checkpoints []) s.arena.clear_unlimited)
  | checkpoint =>
      cases hstep
      have hfits' : s.unlimited.Fits .checkpoint := trivial
      exact step_ordered h hfits' rfl
  | restore i =>
      simp only [step] at hstep
      split at hstep
      · cases hstep
        exact h
      · rename_i checkpoint hcheckpoint
        obtain ⟨restored, hrestore, rfl⟩ := Option.map_eq_some_iff.mp hstep
        have hfits' : s.unlimited.Fits (.restore i) := fun henabled =>
          absurd henabled Bool.false_ne_true
        refine step_ordered h hfits' ?_
        have hunlimited : s.unlimited.arena.restore checkpoint = some restored.unlimited := by
          rw [unlimited, restore_unlimited, hrestore]
          rfl
        have hcheckpoint' : s.unlimited.checkpoints[i]? = some checkpoint := hcheckpoint
        rw [step, hcheckpoint']
        dsimp only
        rw [hunlimited]
        rfl

/-! ## Runs of allocations -/

/-- Allocations put what they make in front of what is live, whatever that is. -/
theorem run_allocates {calls : List ArenaCall} (hcalls : ∀ call ∈ calls, call.Allocates)
    {base : Arena} (hopened : base.Opened s.arena) (h : s.arena.Summed)
    (hrun : calls.foldlM step s = some after) : base.Opened after.arena ∧ after.arena.Summed ∧
      after.checkpoints = s.checkpoints ∧ s.arena.created ≤ after.arena.created ∧
      ∃ made, after.live = made ++ s.live ∧
        ∀ live, calls.foldlM step { s with live := live }
          = some { after with live := made ++ live } := by
  induction calls generalizing s with
  | nil =>
      cases hrun
      exact ⟨hopened, h, rfl, le_rfl, [], rfl, fun live => rfl⟩
  | cons call calls ih =>
      obtain ⟨hcall, hrest⟩ := List.forall_mem_cons.mp hcalls
      rw [List.foldlM_cons] at hrun
      obtain ⟨next, hstep, hafter⟩ := Option.bind_eq_some_iff.mp hrun
      obtain ⟨hmoves, hcheckpoints, made, hlive, hframe⟩ := step_allocates hcall h.accounted hstep
      obtain ⟨hopened', hsummed, hsame, hcreated, made', hlive', hframe'⟩ :=
        ih hrest (hopened.moves hmoves) (hmoves.summed h) hafter
      refine ⟨hopened', hsummed, hsame.trans hcheckpoints, hmoves.created_le.trans hcreated,
        made' ++ made, ?_, fun live => ?_⟩
      · rw [hlive', hlive, List.append_assoc]
      · rw [List.foldlM_cons, hframe, List.append_assoc]
        exact hframe' (made ++ live)

/-- The state a checkpoint and allocations lead to can be taken back to the checkpoint. -/
theorem restore_run (h : s.arena.Summed) {between : List ArenaCall}
    (hbetween : ∀ call ∈ between, call.Allocates)
    (hrun : (.checkpoint :: between).foldlM step s = some after) :
    ∃ restored, after.step (.restore 0) = some restored ∧
      restored.checkpoints = s.arena.checkpoint :: s.checkpoints ∧
      restored.arena.Summed ∧ restored.arena.begun = s.arena.begun ∧ restored.arena.after = [] ∧
      s.arena.created ≤ restored.arena.created ∧ restored.arena.totalUsed = s.arena.totalUsed := by
  rw [List.foldlM_cons] at hrun
  obtain ⟨marked, hmarked, hafter⟩ := Option.bind_eq_some_iff.mp hrun
  cases hmarked
  obtain ⟨hopened, hsummed, hcheckpoints, hcreated, -⟩ :=
    run_allocates (s := { s with checkpoints := s.arena.checkpoint :: s.checkpoints }) hbetween
      (.here s.arena.current.used rfl rfl) h hafter
  obtain ⟨restored, hrestore, hbegun, hlast, hcount, htotal⟩ :=
    restore_checkpoint h hopened hsummed
  refine ⟨{ after with
    arena := restored
    live := after.live.filter fun a => Kept restored a }, ?_, hcheckpoints,
    restore_summed hsummed hrestore, hbegun, hlast, hcreated.trans hcount.ge, htotal⟩
  rw [step, hcheckpoints]
  change Option.map _ (after.arena.restore s.arena.checkpoint) = _
  rw [hrestore]
  rfl

/-- Behind the way back, what was allocated before the checkpoint lies below the marks. -/
theorem restored_ordered (h : s.unlimited.Ordered) {restored : ArenaRun}
    (hcheckpoints : restored.checkpoints = s.arena.checkpoint :: s.checkpoints)
    (hsummed : restored.arena.Summed) (hbegun : restored.arena.begun = s.arena.begun)
    (hlast : restored.arena.after = []) (hcreated : s.arena.created ≤ restored.arena.created) :
    (unlimited { restored with live := s.live }).Ordered := by
  have hchain : restored.arena.chain = s.arena.begun := by
    rw [chain_eq, hlast, List.append_nil, hbegun]
  have hold : ∀ block ∈ restored.arena.chain, block ∈ s.arena.chain := by
    rw [hchain]
    exact fun block => mem_chain_of_begun
  have hmarked : restored.arena.unlimited.Marked := by
    have hused : ∀ block ∈ restored.arena.chain, block.used ≤ block.size := fun block hblock =>
      h.marked.used_le block (hold block hblock)
    refine ⟨⟨hsummed.accounted.books, hsummed.accounted.default_le⟩, hsummed.numbered.ids,
      hsummed.numbered.ids_lt, hused, hsummed.after_eq, ?_,
      fun henabled => absurd henabled Bool.false_ne_true⟩
    have hlt := hsummed.accounted.sumUsed_lt hused
    rw [hchain, ← hbegun] at hlt
    change restored.arena.totalUsed.toNat = sumUsed restored.arena.chain
    rw [hsummed.total_eq, Nat.mod_eq_of_lt hlt, hchain, hbegun]
  refine ⟨hmarked, fun checkpoint hcheckpoint => ?_, fun a ha => ?_, h.aligned, h.apart⟩
  · change checkpoint ∈ restored.checkpoints at hcheckpoint
    rw [hcheckpoints] at hcheckpoint
    have hreaches : s.arena.unlimited.Reaches checkpoint := by
      have hfits : s.unlimited.Fits .checkpoint := trivial
      exact (step_ordered h hfits rfl).reaches checkpoint hcheckpoint
    exact ⟨hreaches.block_lt.trans_le hcreated, fun block hblock =>
      hreaches.used_le block (hold block hblock)⟩
  · change Filled restored.arena.begun a.region
    rw [hbegun]
    exact h.filled a ha

theorem addsUp_live (s : ArenaRun) (live : List Allocation) (call : ArenaCall) :
    AddsUp { s with live := live } call ↔ s.AddsUp call := by
  cases call <;> rfl

/-- What is allocated in a run that adds up lies apart from what was live before. -/
theorem run_apart {calls : List ArenaCall} {live : List Allocation}
    (hcalls : ∀ call ∈ calls, call.Allocates) (h : s.arena.Summed)
    (hordered : (unlimited { s with live := live }).Ordered)
    (hfits : StepsFit step AddsUp s calls) (hrun : calls.foldlM step s = some after) :
    ∃ made, after.live = made ++ s.live ∧ ∀ a ∈ live, ∀ b ∈ made, a.region.Apart b.region := by
  have hlast : after.arena.Summed ∧ ∃ made, after.live = made ++ s.live ∧
      (unlimited { after with live := made ++ live }).Ordered := by
    refine foldlM_of_stepsFit (P := fun after => after.arena.Summed ∧ ∃ made,
      after.live = made ++ s.live ∧ (unlimited { after with live := made ++ live }).Ordered)
      ?_ ⟨h, [], rfl, hordered⟩ (hfits.and_forall hcalls) hrun
    rintro now call next ⟨hsummed, made, hlive, hnow⟩ ⟨hadds, hcall⟩ hstep
    obtain ⟨-, -, made', hlive', hframe⟩ := step_allocates hcall hsummed.accounted hstep
    refine ⟨step_summed hsummed hstep, made' ++ made, ?_, ?_⟩
    · rw [hlive', hlive, List.append_assoc]
    · have hnext := unlimited_ordered hnow ((addsUp_live now _ call).mpr hadds) (hframe _)
      rw [List.append_assoc]
      exact hnext
  obtain ⟨-, made, hlive, hafter⟩ := hlast
  refine ⟨made, hlive, fun a ha b hb => ?_⟩
  exact ((List.pairwise_append.mp hafter.apart).2.2 b hb a ha).symm

/-! ## Checkpoints of reachable arenas -/

theorem run_summed {initialSize quota addr : UInt64} {arena : Arena} {calls : List ArenaCall}
    (hcreate : createWithQuota initialSize quota addr = some arena)
    (hrun : calls.foldlM step arena.start = some s) : s.arena.Summed := by
  have hmarked := createWithQuota_marked hcreate
  refine foldlM_of_invariant (P := fun s => s.arena.Summed)
    (fun s call after h hstep => step_summed h hstep)
    ⟨hmarked.accounted, hmarked.numbered, hmarked.after_eq, ?_⟩ hrun
  have htotal := hmarked.total_eq
  rw [chain_eq, sumUsed_append, sumUsed_eq_zero hmarked.after_eq, Nat.add_zero] at htotal
  change arena.totalUsed.toNat = sumUsed arena.begun % 2 ^ 64
  rw [← htotal]
  exact (Nat.mod_eq_of_lt arena.totalUsed.toNat_lt).symm

theorem run_ordered {initialSize quota addr : UInt64} {arena : Arena} {calls : List ArenaCall}
    (hcreate : createWithQuota initialSize quota addr = some arena)
    (hfits : StepsFit step AddsUp arena.start calls)
    (hrun : calls.foldlM step arena.start = some s) : s.unlimited.Ordered := by
  have hmarked := createWithQuota_marked hcreate
  refine foldlM_of_stepsFit (P := fun s => s.unlimited.Ordered)
    (fun s call after h hadds hstep => unlimited_ordered h hadds hstep) ?_ hfits hrun
  refine ⟨⟨⟨hmarked.accounted.books, hmarked.accounted.default_le⟩, hmarked.ids, hmarked.ids_lt,
    hmarked.used_le, hmarked.after_eq, hmarked.total_eq,
    fun henabled => absurd henabled Bool.false_ne_true⟩, ?_, ?_, ?_, List.Pairwise.nil⟩
  · simp [unlimited, start]
  · simp [unlimited, start]
  · simp [unlimited, start]

/-- No allocation of before the checkpoint is overlapped behind the way back in a run whose
allocations add up, those between the checkpoint and the way back apart. -/
theorem restoresExactly {initialSize quota addr : UInt64} {arena : Arena}
    {calls between later : List ArenaCall}
    (hcreate : createWithQuota initialSize quota addr = some arena)
    (hrun : calls.foldlM step arena.start = some s)
    (hbetween : ∀ call ∈ between, call.Allocates) (hlater : ∀ call ∈ later, call.Allocates)
    (hfits : StepsFit step AddsUp arena.start calls)
    (hlaterFits : ∀ restored ∈ (.checkpoint :: (between ++ [.restore 0])).foldlM step s,
      StepsFit step AddsUp restored later) :
    s.RestoresExactly between later := by
  have hordered := run_ordered hcreate hfits hrun
  intro filled hfilled
  obtain ⟨restored, hrestore, hcheckpoints, hsummed, hbegun, hlast, hcreated, htotal⟩ :=
    restore_run (run_summed hcreate hrun) hbetween hfilled
  refine ⟨restored, hrestore, htotal, fun after hafter => ?_⟩
  have hback : (.checkpoint :: (between ++ [.restore 0])).foldlM step s = some restored := by
    change (.checkpoint :: between ++ [.restore 0] : List ArenaCall).foldlM step s = _
    rw [List.foldlM_append, hfilled, Option.bind_eq_bind, Option.bind_some]
    exact (bind_pure _).trans hrestore
  have hsafe := restored_ordered hordered hcheckpoints hsummed hbegun hlast hcreated
  exact run_apart hlater hsummed hsafe (hlaterFits _ hback) hafter

/-- An arena of which 32 bytes are allocated. -/
def halfUsed : ArenaRun where
  arena := { smallArena with
    current := { smallArena.current with used := 32 }
    totalUsed := 32
    allocCount := 1
    peakUsage := 32 }
  checkpoints := []
  live := [{ region := { base := 4120, len := 32 }, alignment := 1 }]

theorem halfUsed_reached : [.alloc 32 none].foldlM step smallArena.start = some halfUsed := by
  rfl

theorem restoresExactly_halfUsed :
    halfUsed.RestoresExactly [.alloc 0xFFFFFFFFFFFFFFE0 none, .alloc 100 (some 8192)]
      [.alloc 16 none] :=
  restoresExactly createWithQuota_small halfUsed_reached
    (by simp [ArenaCall.Allocates]) (by simp [ArenaCall.Allocates])
    (by decide +kernel) (by decide +kernel)

/-- A request that wraps around moves the mark back, below what was allocated before. -/
theorem wrapped_request_overlaps :
    createWithQuota 64 0 4096 = some smallArena ∧
      [.alloc 32 none].foldlM step smallArena.start = some halfUsed ∧
      ¬ halfUsed.RestoresExactly [] [.alloc 0xFFFFFFFFFFFFFFE0 none, .alloc 16 none] := by
  refine ⟨createWithQuota_small, halfUsed_reached, fun hexact => ?_⟩
  obtain ⟨restored, hrestore, -, hafter⟩ := hexact _ rfl
  cases hrestore
  obtain ⟨made, hlive, hapart⟩ := hafter _ (Option.some_get (by decide +kernel)).symm
  have hmade : made = [⟨{ base := 4120, len := 16 }, 1⟩,
      ⟨{ base := 4152, len := 0xFFFFFFFFFFFFFFE0 }, 1⟩] := by
    refine List.append_cancel_right (hlive.symm.trans ?_)
    decide +kernel
  have hoverlap := hapart ⟨{ base := 4120, len := 32 }, 1⟩ (by decide +kernel) _
    (hmade ▸ List.mem_cons_self)
  revert hoverlap
  decide +kernel

end ArenaRun
end Memory
end InventixDB
