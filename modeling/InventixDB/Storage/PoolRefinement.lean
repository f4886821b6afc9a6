import InventixDB.Storage.BufferPool
import Mathlib.Data.Finset.Card
import Mathlib.Data.Fintype.Card

/-!
# PoolRefinement — the buffer pool is an array of pages

Callers see an array that keeps what was last written to every page, over closing and reopening
the file, and which pages are pinned.  The array refuses a page only if ten others are pinned.  A
write counts as marked if the page is marked dirty after it, or was before it with no flush of all
pages in between; unmarked writes must not outlive the last pin.
-/

namespace InventixDB
namespace Storage

open Lib

/-! ## The array of pages -/

/-- `marked` are the pages marked dirty since they were pinned and since the last flush, `owed`
those with a write that is not marked. -/
structure PageArray where
  pages : PageNum → PageData
  pins : PageNum → Nat
  marked : PageNum → Bool
  owed : PageNum → Bool
  gets : Nat

def PageArray.ofFile (file : List UInt8) : PageArray :=
  { pages := pagerRead file
    pins := fun _ => 0
    marked := fun _ => false
    owed := fun _ => false
    gets := 0 }

def PageArray.setPins (a : PageArray) (n : PageNum) (k : Nat) : PageArray :=
  { a with pins := Function.update a.pins n k }

theorem pins_setPins (a : PageArray) (n : PageNum) (k : Nat) :
    (a.setPins n k).pins n = k :=
  Function.update_self _ _ _

theorem pins_setPins_of_ne {n m : PageNum} (h : m ≠ n) (a : PageArray) (k : Nat) :
    (a.setPins n k).pins m = a.pins m :=
  Function.update_of_ne h _ _

/-- As many pages as there are frames are pinned, and this one is not. -/
def PageArray.Refuses (a : PageArray) (n : PageNum) : Prop :=
  a.pins n = 0 ∧ poolSize ≤ (Finset.univ.filter fun m => a.pins m ≠ 0).card

instance decidableRefuses (a : PageArray) (n : PageNum) : Decidable (a.Refuses n) :=
  inferInstanceAs (Decidable (_ ∧ _))

inductive PoolOp
  | getPage (n : PageNum)
  | modify (n : PageNum) (data : PageData)
  | markDirty (n : PageNum)
  | unpin (n : PageNum)
  | flushAll
  | reopen
  deriving DecidableEq

def PoolOp.effect (a : PageArray) : PoolOp → PageArray
  | getPage n =>
      if a.Refuses n then { a with gets := a.gets + 1 }
      else { a.setPins n (a.pins n + 1) with gets := a.gets + 1 }
  | modify n data =>
      { a with
        pages := Function.update a.pages n data
        owed := Function.update a.owed n (a.owed n || !a.marked n) }
  | markDirty n =>
      if a.pins n = 0 then a
      else
        { a with
          marked := Function.update a.marked n true
          owed := Function.update a.owed n false }
  | unpin n =>
      { a.setPins n (a.pins n - 1) with
        marked := Function.update a.marked n (a.marked n && decide (1 < a.pins n)) }
  | flushAll => { a with marked := fun _ => false }
  | reopen => { a with pins := fun _ => 0, marked := fun _ => false, gets := 0 }

/-- What a call returns; only `buffer_pool_get_page` returns anything. -/
def PoolOp.answer (a : PageArray) : PoolOp → Option PageData
  | getPage n => if a.Refuses n then none else some (a.pages n)
  | _ => none

/-- Callers write to pinned pages only and mark them before the last pin goes or the file is
closed; a session has less than 2^31 calls of `buffer_pool_get_page`. -/
def PoolOp.Allowed (a : PageArray) : PoolOp → Prop
  | getPage _ => a.gets < intMax
  | modify n _ => a.pins n ≠ 0
  | markDirty _ => True
  | unpin n => a.pins n ≤ 1 → a.owed n = false
  | flushAll => True
  | reopen => ∀ n, a.owed n = false

instance decidableAllowed (a : PageArray) : (op : PoolOp) → Decidable (op.Allowed a)
  | .getPage _ => inferInstanceAs (Decidable (_ < _))
  | .modify _ _ => inferInstanceAs (Decidable (_ ≠ _))
  | .markDirty _ => isTrue trivial
  | .unpin _ => inferInstanceAs (Decidable (_ → _))
  | .flushAll => isTrue trivial
  | .reopen => inferInstanceAs (Decidable (∀ n : Fin tableMaxPages, a.owed n = false))

/-! ## The operations of the pool -/

def PoolOp.run (pool : BufferPool) : PoolOp → Option (Option PageData × BufferPool)
  | getPage n => bufferPoolGetPage pool n
  | modify n data => some (none, pool.writeThrough n data)
  | markDirty n => some (none, bufferPoolMarkDirty pool n)
  | unpin n => some (none, bufferPoolUnpin pool n)
  | flushAll => some (none, bufferPoolFlushAll pool)
  | reopen => some (none, bufferPoolInit (bufferPoolClose pool))

/-! ## Frames -/

section Frames

variable {pool : BufferPool} {a : PageArray} {i j : Fin poolSize} {n m : PageNum}
  {d e : PageData} {frame : Frame}

/-- What a frame with page `n` says about the array and the file. -/
structure Frame.Mirrors (frame : Frame) (n : PageNum) (d : PageData) (a : PageArray)
    (file : List UInt8) : Prop where
  data_eq : d = a.pages n
  pins_eq : frame.pinCount = a.pins n
  dirty_of_marked : a.marked n = true → frame.isDirty = true
  clean : frame.isDirty = false → a.owed n = false → pagerRead file n = d

/-- The pool holds the array. -/
structure BufferPool.Mirrors (pool : BufferPool) (a : PageArray) : Prop where
  distinct : ∀ i j n d e, (pool.frames i).page = some (n, d) →
    (pool.frames j).page = some (n, e) → i = j
  loaded : ∀ i n d, (pool.frames i).page = some (n, d) →
    (pool.frames i).Mirrors n d a pool.file
  absent : ∀ n, (∀ i d, (pool.frames i).page ≠ some (n, d)) →
    a.pins n = 0 ∧ pagerRead pool.file n = a.pages n
  empty : ∀ i, (pool.frames i).page = none →
    (pool.frames i).pinCount = 0 ∧ (pool.frames i).isDirty = false
  used : ∀ i, (pool.frames i).lastUsed ≤ pool.clock
  clock_eq : pool.clock = a.gets
  owed_pinned : ∀ n, a.owed n = true → a.pins n ≠ 0
  marked_pinned : ∀ n, a.marked n = true → a.pins n ≠ 0
  pins_le : ∀ n, a.pins n ≤ a.gets

@[simp]
theorem frames_setFrame (pool : BufferPool) (i : Fin poolSize) (frame : Frame) :
    (pool.setFrame i frame).frames = Function.update pool.frames i frame := rfl

theorem holds_iff : frame.holds n = true ↔ ∃ d, frame.page = some (n, d) := by
  rw [Frame.holds]
  cases frame.page with
  | none => exact ⟨fun h => absurd h Bool.false_ne_true, fun ⟨_, h⟩ => by cases h⟩
  | some p =>
      rw [Option.any_some, beq_iff_eq]
      exact ⟨fun h => ⟨p.2, by rw [← h]⟩, fun ⟨d, h⟩ => by rw [Option.some_inj.mp h]⟩

theorem find_eq_some (h : pool.find n = some i) : ∃ d, (pool.frames i).page = some (n, d) :=
  holds_iff.mp (List.find?_some (p := fun i => (pool.frames i).holds n) h)

theorem find_eq_none (h : pool.find n = none) (i : Fin poolSize) (d : PageData) :
    (pool.frames i).page ≠ some (n, d) := by
  intro hpage
  exact List.find?_eq_none.mp h i (List.mem_finRange i) (holds_iff.mpr ⟨d, hpage⟩)

theorem firstEmpty_eq_some (h : pool.firstEmpty = some i) : (pool.frames i).page = none :=
  Option.isNone_iff_eq_none.mp
    (List.find?_some (p := fun i => (pool.frames i).page.isNone) h)

theorem firstEmpty_eq_none (h : pool.firstEmpty = none) (i : Fin poolSize) :
    (pool.frames i).page ≠ none := by
  intro hpage
  exact List.find?_eq_none.mp h i (List.mem_finRange i) (Option.isNone_iff_eq_none.mpr hpage)

/-! ## The frame to evict -/

theorem foldl_lruStep_unpinned (frames : Fin poolSize → Frame) (l : List (Fin poolSize))
    {best : Option (Fin poolSize) × Nat} (h : ∀ i ∈ best.1, (frames i).pinCount = 0) :
    ∀ i ∈ (l.foldl (lruStep frames) best).1, (frames i).pinCount = 0 := by
  induction l generalizing best with
  | nil => exact h
  | cons j l ih =>
      refine ih fun i hi => ?_
      rw [lruStep] at hi
      split at hi
      · next hj => rw [← Option.some_inj.mp hi]; exact hj.1
      · exact h i hi

theorem foldl_lruStep_isSome (frames : Fin poolSize → Frame) (l : List (Fin poolSize))
    (best : Option (Fin poolSize) × Nat) (h : best.1.isSome) :
    (l.foldl (lruStep frames) best).1.isSome := by
  induction l generalizing best with
  | nil => exact h
  | cons j l ih =>
      refine ih _ ?_
      rw [lruStep]
      split
      · rfl
      · exact h

theorem foldl_lruStep_eq_none {frames : Fin poolSize → Frame} {l : List (Fin poolSize)}
    (h : (l.foldl (lruStep frames) (none, intMax)).1 = none) :
    ∀ i ∈ l, (frames i).lastUsed < intMax → (frames i).pinCount ≠ 0 := by
  induction l with
  | nil => exact fun i hi => absurd hi List.not_mem_nil
  | cons j l ih =>
      rw [List.foldl_cons, lruStep] at h
      split at h
      · next hj =>
          have hsome := foldl_lruStep_isSome frames l (some j, (frames j).lastUsed) rfl
          rw [h] at hsome
          cases hsome
      · next hj =>
          intro i hi hused hpin
          rcases List.mem_cons.mp hi with rfl | hi
          · exact hj ⟨hpin, hused⟩
          · exact ih h i hi hused hpin

theorem lru_eq_some (h : pool.lru = some i) : (pool.frames i).pinCount = 0 :=
  foldl_lruStep_unpinned pool.frames _ (fun _ hi => absurd hi (Option.not_mem_none _)) i h

theorem lru_eq_none (h : pool.lru = none) (hused : (pool.frames i).lastUsed < intMax) :
    (pool.frames i).pinCount ≠ 0 :=
  foldl_lruStep_eq_none h i (List.mem_finRange i) hused

/-! ## What keeps the array -/

namespace BufferPool.Mirrors

variable {a' : PageArray}

/-- A frame that holds a page goes on holding it, while the array changes at that page only. -/
theorem setFrame_loaded (h : pool.Mirrors a) (hi : (pool.frames i).page = some (n, d))
    (hpage : frame.page = some (n, e)) (hframe : frame.Mirrors n e a' pool.file)
    (hused : frame.lastUsed ≤ pool.clock) (hgets : a'.gets = a.gets)
    (hoff : ∀ m, m ≠ n → a'.pages m = a.pages m ∧ a'.pins m = a.pins m ∧
      a'.marked m = a.marked m ∧ a'.owed m = a.owed m)
    (howed : a'.owed n = true → a'.pins n ≠ 0) (hmarked : a'.marked n = true → a'.pins n ≠ 0)
    (hle : a'.pins n ≤ a'.gets) : (pool.setFrame i frame).Mirrors a' := by
  have hother : ∀ j m e', j ≠ i → (pool.frames j).page = some (m, e') → m ≠ n := by
    rintro j m e' hj hpage' rfl
    exact hj (h.distinct j i _ _ _ hpage' hi)
  -- the pages of the frames are those they were
  have hpages : ∀ j m e', ((pool.setFrame i frame).frames j).page = some (m, e') →
      ∃ e'', (pool.frames j).page = some (m, e'') := by
    intro j m e' hj
    rw [frames_setFrame, Function.update_apply] at hj
    split at hj
    · next heq =>
        rw [hpage] at hj
        obtain ⟨rfl, -⟩ := Prod.mk.inj (Option.some_inj.mp hj)
        exact ⟨d, by rw [heq, hi]⟩
    · exact ⟨e', hj⟩
  constructor
  case distinct =>
    intro j k m e₁ e₂ hj hk
    obtain ⟨_, hj⟩ := hpages j m e₁ hj
    obtain ⟨_, hk⟩ := hpages k m e₂ hk
    exact h.distinct j k m _ _ hj hk
  case loaded =>
    intro j m e' hj
    rw [frames_setFrame, Function.update_apply] at hj ⊢
    split at hj
    · next heq =>
        rw [hpage] at hj
        obtain ⟨rfl, rfl⟩ := Prod.mk.inj (Option.some_inj.mp hj)
        rw [if_pos heq]
        exact hframe
    · next hne =>
        obtain ⟨hpg, hpn, hmk, how⟩ := hoff m (hother j m e' hne hj)
        obtain ⟨hdata, hpins, hdirty, hclean⟩ := h.loaded j m e' hj
        rw [if_neg hne]
        refine ⟨hdata.trans hpg.symm, hpins.trans hpn.symm, fun hm => hdirty (hmk ▸ hm), ?_⟩
        exact fun hd ho => hclean hd (how ▸ ho)
  case absent =>
    intro m hm
    have hmn : m ≠ n := by
      rintro rfl
      refine hm i e ?_
      rw [frames_setFrame, Function.update_self, hpage]
    have habsent := h.absent m fun j e' hj => by
      refine hm j e' ?_
      rw [frames_setFrame, Function.update_of_ne]
      · exact hj
      · rintro rfl
        rw [hi] at hj
        exact hmn (Prod.mk.inj (Option.some_inj.mp hj)).1.symm
    obtain ⟨hpg, hpn, -, -⟩ := hoff m hmn
    exact ⟨hpn.trans habsent.1, habsent.2.trans hpg.symm⟩
  case empty =>
    intro j hj
    rw [frames_setFrame, Function.update_apply] at hj ⊢
    split at hj
    · rw [hpage] at hj
      cases hj
    · next hne =>
        rw [if_neg hne]
        exact h.empty j hj
  case used =>
    intro j
    rw [frames_setFrame, Function.update_apply]
    split
    · exact hused
    · exact h.used j
  case clock_eq => exact h.clock_eq.trans hgets.symm
  case owed_pinned =>
    intro m
    by_cases hm : m = n
    · rw [hm]
      exact howed
    · rw [(hoff m hm).2.2.2, (hoff m hm).2.1]
      exact h.owed_pinned m
  case marked_pinned =>
    intro m
    by_cases hm : m = n
    · rw [hm]
      exact hmarked
    · rw [(hoff m hm).2.2.1, (hoff m hm).2.1]
      exact h.marked_pinned m
  case pins_le =>
    intro m
    by_cases hm : m = n
    · rw [hm]
      exact hle
    · rw [(hoff m hm).2.1, hgets]
      exact h.pins_le m

theorem tick (h : pool.Mirrors a) : pool.tick.Mirrors { a with gets := a.gets + 1 } where
  distinct := h.distinct
  loaded i n d hi :=
    have hframe := h.loaded i n d hi
    ⟨hframe.data_eq, hframe.pins_eq, hframe.dirty_of_marked, hframe.clean⟩
  absent := h.absent
  empty := h.empty
  used i := Nat.le_succ_of_le (h.used i)
  clock_eq := congrArg (· + 1) h.clock_eq
  owed_pinned := h.owed_pinned
  marked_pinned := h.marked_pinned
  pins_le n := Nat.le_succ_of_le (h.pins_le n)

theorem forget_marks (h : pool.Mirrors a) : pool.Mirrors { a with marked := fun _ => false } where
  distinct := h.distinct
  loaded i n d hi :=
    have hframe := h.loaded i n d hi
    ⟨hframe.data_eq, hframe.pins_eq, fun hm => absurd hm Bool.false_ne_true, hframe.clean⟩
  absent := h.absent
  empty := h.empty
  used := h.used
  clock_eq := h.clock_eq
  owed_pinned := h.owed_pinned
  marked_pinned := fun _ hm => absurd hm Bool.false_ne_true
  pins_le := h.pins_le

/-- A page without pins has no write that is not marked, and no mark. -/
theorem unpinned (h : pool.Mirrors a) (hn : a.pins n = 0) :
    a.owed n = false ∧ a.marked n = false :=
  ⟨Bool.eq_false_iff.mpr fun ho => h.owed_pinned n ho hn,
    Bool.eq_false_iff.mpr fun hm => h.marked_pinned n hm hn⟩

/-! ## Writing back -/

theorem writeBack_of_page (hi : (pool.frames i).page = some (n, d)) :
    pool.writeBack i =
      if (pool.frames i).isDirty then { pool with file := pagerWrite pool.file n d }
      else pool := by
  rw [BufferPool.writeBack, hi]

theorem frames_writeBack (pool : BufferPool) (i : Fin poolSize) :
    (pool.writeBack i).frames = pool.frames := by
  rw [BufferPool.writeBack]
  split
  · split <;> rfl
  · rfl

theorem clock_writeBack (pool : BufferPool) (i : Fin poolSize) :
    (pool.writeBack i).clock = pool.clock := by
  rw [BufferPool.writeBack]
  split
  · split <;> rfl
  · rfl

theorem pagerRead_writeBack (h : pool.Mirrors a) (hi : (pool.frames i).page = some (n, d))
    (hor : (pool.frames i).isDirty = true ∨ a.owed n = false) :
    pagerRead (pool.writeBack i).file n = d := by
  rw [writeBack_of_page hi]
  cases hdirty : (pool.frames i).isDirty with
  | true => exact PagedFile.readPage_writePage 0 d pool.file
  | false =>
      refine (h.loaded i n d hi).clean hdirty (hor.resolve_left fun ht => ?_)
      rw [hdirty] at ht
      cases ht

theorem pagerRead_writeBack_of_ne (hi : ∀ d, (pool.frames i).page ≠ some (m, d)) :
    pagerRead (pool.writeBack i).file m = pagerRead pool.file m := by
  rw [BufferPool.writeBack]
  split
  · next n d hpage =>
      split
      · refine PagedFile.readPage_writePage_of_ne 0 (fun hmn => ?_) d pool.file
        exact hi d (by rw [hpage, Fin.ext hmn])
      · rfl
  · rfl

theorem writeBack (h : pool.Mirrors a) (i : Fin poolSize) : (pool.writeBack i).Mirrors a := by
  have hframes := frames_writeBack pool i
  have hclock := clock_writeBack pool i
  constructor
  case distinct => rw [hframes]; exact h.distinct
  case loaded =>
    intro j m e hj
    rw [hframes] at hj ⊢
    obtain ⟨hdata, hpins, hmarked, hclean⟩ := h.loaded j m e hj
    refine ⟨hdata, hpins, hmarked, fun hd ho => ?_⟩
    by_cases hji : j = i
    · rw [hji] at hj
      exact h.pagerRead_writeBack hj (Or.inr ho)
    · rw [pagerRead_writeBack_of_ne fun e' he' => hji (h.distinct j i m _ _ hj he')]
      exact hclean hd ho
  case absent =>
    intro m hm
    rw [hframes] at hm
    obtain ⟨hpins, hread⟩ := h.absent m hm
    exact ⟨hpins, (pagerRead_writeBack_of_ne (hm i)).trans hread⟩
  case empty => rw [hframes]; exact h.empty
  case used => rw [hframes, hclock]; exact h.used
  case clock_eq => rw [hclock]; exact h.clock_eq
  case owed_pinned => exact h.owed_pinned
  case marked_pinned => exact h.marked_pinned
  case pins_le => exact h.pins_le

/-! ## Eviction and loading -/

/-- An unpinned page may leave its frame once the file has its data. -/
theorem setFrame_cleared (h : pool.Mirrors a) (hi : (pool.frames i).page = some (n, d))
    (hpins : a.pins n = 0) (hread : pagerRead pool.file n = d) :
    (pool.setFrame i
      { pool.frames i with page := none, isDirty := false, pinCount := 0 }).Mirrors a := by
  have hkept : ∀ j m e, ((pool.setFrame i
      { pool.frames i with page := none, isDirty := false, pinCount := 0 }).frames j).page =
        some (m, e) → j ≠ i ∧ (pool.frames j).page = some (m, e) := by
    intro j m e hj
    rw [frames_setFrame, Function.update_apply] at hj
    split at hj
    · cases hj
    · next hne => exact ⟨hne, hj⟩
  constructor
  case distinct =>
    intro j k m e₁ e₂ hj hk
    exact h.distinct j k m _ _ (hkept j m e₁ hj).2 (hkept k m e₂ hk).2
  case loaded =>
    intro j m e hj
    obtain ⟨hne, hj⟩ := hkept j m e hj
    rw [frames_setFrame, Function.update_of_ne hne]
    exact h.loaded j m e hj
  case absent =>
    intro m hm
    by_cases hmn : m = n
    · rw [hmn]
      exact ⟨hpins, hread.trans (h.loaded i n d hi).data_eq⟩
    · refine h.absent m fun j e hj => hm j e ?_
      rw [frames_setFrame, Function.update_of_ne]
      · exact hj
      · rintro rfl
        rw [hi] at hj
        exact hmn (Prod.mk.inj (Option.some_inj.mp hj)).1.symm
  case empty =>
    intro j hj
    rw [frames_setFrame, Function.update_apply] at hj ⊢
    split
    · exact ⟨rfl, rfl⟩
    · next hne =>
        rw [if_neg hne] at hj
        exact h.empty j hj
  case used =>
    intro j
    rw [frames_setFrame, Function.update_apply]
    split
    · next heq => exact h.used i
    · exact h.used j
  case clock_eq => exact h.clock_eq
  case owed_pinned => exact h.owed_pinned
  case marked_pinned => exact h.marked_pinned
  case pins_le => exact h.pins_le

/-- A page in no frame is read into an empty one and pinned. -/
theorem load (h : pool.Mirrors a) (hi : (pool.frames i).page = none)
    (hn : ∀ j d, (pool.frames j).page ≠ some (n, d)) (hgets : 1 ≤ a.gets) :
    (pool.load i n).Mirrors (a.setPins n 1) := by
  obtain ⟨hpins, hread⟩ := h.absent n hn
  obtain ⟨howed, hmarked⟩ := h.unpinned hpins
  have hne : ∀ j m e, (pool.frames j).page = some (m, e) → j ≠ i ∧ m ≠ n := by
    intro j m e hj
    refine ⟨?_, ?_⟩
    · rintro rfl
      rw [hi] at hj
      cases hj
    · rintro rfl
      exact hn j e hj
  constructor
  case distinct =>
    intro j k m e₁ e₂ hj hk
    rw [BufferPool.load, frames_setFrame, Function.update_apply] at hj hk
    split at hj
    · next hji =>
        obtain ⟨rfl, -⟩ := Prod.mk.inj (Option.some_inj.mp hj)
        split at hk
        · next hki => rw [hji, hki]
        · exact absurd hk (hn k e₂)
    · split at hk
      · obtain ⟨rfl, -⟩ := Prod.mk.inj (Option.some_inj.mp hk)
        exact absurd hj (hn j e₁)
      · exact h.distinct j k m _ _ hj hk
  case loaded =>
    intro j m e hj
    rw [BufferPool.load, frames_setFrame, Function.update_apply] at hj ⊢
    split at hj
    · next hji =>
        obtain ⟨rfl, rfl⟩ := Prod.mk.inj (Option.some_inj.mp hj)
        rw [if_pos hji]
        refine ⟨hread, (pins_setPins a n 1).symm, fun hm => ?_, fun _ _ => rfl⟩
        exact absurd (hm.symm.trans hmarked) (by decide)
    · next hji =>
        obtain ⟨hdata, hpins', hdirty, hclean⟩ := h.loaded j m e hj
        rw [if_neg hji]
        refine ⟨hdata, ?_, hdirty, hclean⟩
        rw [pins_setPins_of_ne (hne j m e hj).2]
        exact hpins'
  case absent =>
    intro m hm
    have hmn : m ≠ n := by
      rintro rfl
      refine hm i (pagerRead pool.file m) ?_
      rw [BufferPool.load, frames_setFrame, Function.update_self]
    rw [pins_setPins_of_ne hmn]
    refine h.absent m fun j e hj => hm j e ?_
    rw [BufferPool.load, frames_setFrame, Function.update_of_ne (hne j m e hj).1]
    exact hj
  case empty =>
    intro j hj
    rw [BufferPool.load, frames_setFrame, Function.update_apply] at hj ⊢
    split at hj
    · cases hj
    · next hji =>
        rw [if_neg hji]
        exact h.empty j hj
  case used =>
    intro j
    rw [BufferPool.load, frames_setFrame, Function.update_apply]
    split
    · exact le_rfl
    · exact h.used j
  case clock_eq => exact h.clock_eq
  case owed_pinned =>
    intro m hm
    by_cases hmn : m = n
    · rw [hmn] at hm
      exact absurd (hm.symm.trans howed) (by decide)
    · rw [pins_setPins_of_ne hmn]
      exact h.owed_pinned m hm
  case marked_pinned =>
    intro m hm
    by_cases hmn : m = n
    · rw [hmn] at hm
      exact absurd (hm.symm.trans hmarked) (by decide)
    · rw [pins_setPins_of_ne hmn]
      exact h.marked_pinned m hm
  case pins_le =>
    intro m
    by_cases hmn : m = n
    · rw [hmn, pins_setPins]
      exact hgets
    · rw [pins_setPins_of_ne hmn]
      exact h.pins_le m

/-! ## Asking for a page -/

theorem exists_frame (h : pool.Mirrors a) (hn : a.pins n ≠ 0) :
    ∃ i d, (pool.frames i).page = some (n, d) := by
  by_contra hnone
  exact hn (h.absent n fun i d hi => hnone ⟨i, d, hi⟩).1

/-- Every frame is pinned exactly if as many pages are. -/
theorem all_pinned_iff (h : pool.Mirrors a) :
    (∀ i, (pool.frames i).pinCount ≠ 0) ↔
      poolSize ≤ (Finset.univ.filter fun m => a.pins m ≠ 0).card := by
  constructor
  · intro hall
    have hpage : ∀ i, ∃ n, ∃ d, (pool.frames i).page = some (n, d) := by
      intro i
      cases hi : (pool.frames i).page with
      | none => exact absurd (h.empty i hi).1 (hall i)
      | some p => exact ⟨p.1, p.2, rfl⟩
    choose f hf using hpage
    calc poolSize = (Finset.univ : Finset (Fin poolSize)).card := (Finset.card_fin poolSize).symm
      _ ≤ (Finset.univ.filter fun m => a.pins m ≠ 0).card := by
        refine Finset.card_le_card_of_injOn f (fun i _ => ?_) fun i _ j _ hij => ?_
        · obtain ⟨d, hd⟩ := hf i
          refine Finset.mem_filter.mpr ⟨Finset.mem_univ _, ?_⟩
          rw [← (h.loaded i _ d hd).pins_eq]
          exact hall i
        · obtain ⟨d, hd⟩ := hf i
          obtain ⟨e, he⟩ := hf j
          rw [← hij] at he
          exact h.distinct i j _ d e hd he
  · intro hcard j hj
    -- a page is in the frame `f` gives, and none of the pinned ones is in frame `j`
    have hframe : ∀ n, ∃ i, a.pins n ≠ 0 → ∃ d, (pool.frames i).page = some (n, d) := by
      intro n
      by_cases hn : a.pins n = 0
      · exact ⟨j, fun hne => absurd hn hne⟩
      · obtain ⟨i, d, hd⟩ := h.exists_frame hn
        exact ⟨i, fun _ => ⟨d, hd⟩⟩
    choose f hf using hframe
    have hle : (Finset.univ.filter fun m => a.pins m ≠ 0).card ≤ (Finset.univ.erase j).card := by
      refine Finset.card_le_card_of_injOn f (fun n hn => ?_) fun n hn m hm hnm => ?_
      · have hpinned := (Finset.mem_filter.mp hn).2
        obtain ⟨d, hd⟩ := hf n hpinned
        refine Finset.mem_erase.mpr ⟨fun hij => hpinned ?_, Finset.mem_univ _⟩
        rw [← (h.loaded _ n d hd).pins_eq, hij]
        exact hj
      · obtain ⟨d, hd⟩ := hf n (Finset.mem_filter.mp hn).2
        obtain ⟨e, he⟩ := hf m (Finset.mem_filter.mp hm).2
        rw [hnm, he] at hd
        exact (Prod.mk.inj (Option.some_inj.mp hd)).1.symm
    rw [Finset.card_erase_of_mem (Finset.mem_univ j), Finset.card_fin] at hle
    exact absurd (hcard.trans hle) (by decide)

/-- Room is made in an empty frame, and only if not every frame is pinned. -/
theorem makeRoom_eq_some {slot : Fin poolSize} {room : BufferPool} (h : pool.Mirrors a)
    (hroom : pool.makeRoom = some (slot, room)) :
    room.Mirrors a ∧ (room.frames slot).page = none ∧ (pool.frames slot).pinCount = 0 ∧
      room.clock = pool.clock ∧ ∀ j, j ≠ slot → room.frames j = pool.frames j := by
  rw [BufferPool.makeRoom] at hroom
  split at hroom
  · next i hempty =>
      obtain ⟨rfl, rfl⟩ := Prod.mk.inj (Option.some_inj.mp hroom)
      have hi := firstEmpty_eq_some hempty
      exact ⟨h, hi, (h.empty i hi).1, rfl, fun _ _ => rfl⟩
  · next hfull =>
      obtain ⟨i, hlru, hi⟩ := Option.map_eq_some_iff.mp hroom
      obtain ⟨rfl, rfl⟩ := Prod.mk.inj hi
      have hpin := lru_eq_some hlru
      obtain ⟨⟨n, d⟩, hpage⟩ := Option.ne_none_iff_exists'.mp (firstEmpty_eq_none hfull i)
      have hpins : a.pins n = 0 := (h.loaded i n d hpage).pins_eq.symm.trans hpin
      have hread := h.pagerRead_writeBack hpage (Or.inr (h.unpinned hpins).1)
      have hclear := (h.writeBack i).setFrame_cleared (i := i) (n := n) (d := d)
        (by rw [frames_writeBack]; exact hpage) hpins hread
      rw [frames_writeBack] at hclear
      refine ⟨hclear, ?_, hpin, clock_writeBack pool i, fun j hj => ?_⟩
      · rw [frames_setFrame, Function.update_self]
      · rw [frames_setFrame, Function.update_of_ne hj, frames_writeBack]

theorem makeRoom_eq_none (hroom : pool.makeRoom = none)
    (hused : ∀ i, (pool.frames i).lastUsed < intMax) (i : Fin poolSize) :
    (pool.frames i).pinCount ≠ 0 := by
  rw [BufferPool.makeRoom] at hroom
  split at hroom
  · cases hroom
  · exact lru_eq_none (Option.map_eq_none_iff.mp hroom) (hused i)

/-- The pool answers as the array does. -/
theorem getPage (h : pool.Mirrors a) (n : PageNum) (hgets : a.gets < intMax) :
    ∃ pool', bufferPoolGetPage pool n = some ((PoolOp.getPage n).answer a, pool') ∧
      pool'.Mirrors ((PoolOp.getPage n).effect a) ∧
      ∀ i m d, (pool.frames i).pinCount ≠ 0 → (pool.frames i).page = some (m, d) →
        ∃ d', (pool'.frames i).page = some (m, d') := by
  have hclock : pool.clock < intMax := h.clock_eq ▸ hgets
  have hused : ∀ i, (pool.tick.frames i).lastUsed < intMax :=
    fun i => lt_of_le_of_lt (h.used i) hclock
  rw [bufferPoolGetPage, if_neg (Nat.ne_of_lt hclock)]
  cases hfind : pool.tick.find n with
  | some i =>
      obtain ⟨d, hi⟩ := find_eq_some hfind
      obtain ⟨hdata, hpins, hdirty, hclean⟩ := h.loaded i n d hi
      have hserved : ¬ a.Refuses n := by
        rintro ⟨hzero, hfull⟩
        exact h.all_pinned_iff.mpr hfull i (hpins.trans hzero)
      have hanswer : (pool.frames i).page.map Prod.snd = some (a.pages n) :=
        (congrArg (Option.map Prod.snd) hi).trans (congrArg some hdata)
      have hle := h.pins_le n
      have hcount : (pool.frames i).pinCount ≠ intMax :=
        Nat.ne_of_lt (lt_of_le_of_lt (hpins.trans_le hle) hgets)
      refine ⟨pool.tick.setFrame i
        { pool.frames i with
          lastUsed := pool.tick.clock
          pinCount := (pool.frames i).pinCount + 1 }, ?_, ?_, fun j m e _ hj => ?_⟩
      · show (if (pool.frames i).pinCount = intMax then none
          else some ((pool.frames i).page.map Prod.snd, _)) = _
        rw [if_neg hcount, hanswer, PoolOp.answer, if_neg hserved]
        rfl
      · rw [PoolOp.effect, if_neg hserved]
        refine h.tick.setFrame_loaded hi hi ⟨hdata, ?_, hdirty, hclean⟩ le_rfl rfl ?_ ?_ ?_ ?_
        · show _ = (a.setPins n _).pins n
          rw [pins_setPins, hpins]
        · exact fun m hm => ⟨rfl, pins_setPins_of_ne hm a _, rfl, rfl⟩
        · intro _
          show (a.setPins n _).pins n ≠ 0
          rw [pins_setPins]
          exact Nat.succ_ne_zero _
        · intro _
          show (a.setPins n _).pins n ≠ 0
          rw [pins_setPins]
          exact Nat.succ_ne_zero _
        · show (a.setPins n _).pins n ≤ _
          rw [pins_setPins]
          exact Nat.succ_le_succ hle
      · by_cases hji : j = i
        · rw [hji] at hj
          refine ⟨e, ?_⟩
          rw [hji, frames_setFrame, Function.update_self]
          exact hj
        · exact ⟨e, by rw [frames_setFrame, Function.update_of_ne hji]; exact hj⟩
  | none =>
      have habsent := find_eq_none hfind
      have hzero := (h.absent n habsent).1
      cases hroom : pool.tick.makeRoom with
      | none =>
          have hall : ∀ i, (pool.tick.frames i).pinCount ≠ 0 := makeRoom_eq_none hroom hused
          have hrefused : a.Refuses n := ⟨hzero, h.all_pinned_iff.mp hall⟩
          refine ⟨pool.tick, ?_, ?_, fun i m d _ hi => ⟨d, hi⟩⟩
          · rw [PoolOp.answer, if_pos hrefused]
          · rw [PoolOp.effect, if_pos hrefused]
            exact h.tick
      | some r =>
          obtain ⟨slot, room⟩ := r
          obtain ⟨hmirrors, hempty, hpin, hsame, hother⟩ := h.tick.makeRoom_eq_some hroom
          have hserved : ¬ a.Refuses n := fun hrefused =>
            h.all_pinned_iff.mpr hrefused.2 slot hpin
          have hgone : ∀ j d, (room.frames j).page ≠ some (n, d) := by
            intro j d hj
            by_cases hjs : j = slot
            · rw [hjs, hempty] at hj
              cases hj
            · rw [hother j hjs] at hj
              exact habsent j d hj
          have hread := (hmirrors.absent n hgone).2
          refine ⟨room.load slot n, ?_, ?_, fun j m e hpinned hj => ?_⟩
          · rw [PoolOp.answer, if_neg hserved]
            exact congrArg (fun d => some (some d, _)) hread
          · rw [PoolOp.effect, if_neg hserved, hzero]
            exact hmirrors.load hempty hgone (Nat.le_add_left 1 _)
          · have hjs : j ≠ slot := fun hjs => hpinned (by rw [hjs]; exact hpin)
            refine ⟨e, ?_⟩
            rw [BufferPool.load, frames_setFrame, Function.update_of_ne hjs, hother j hjs]
            exact hj

/-! ## Changing a frame in place -/

theorem modifyFrame_of_find {f : Frame → Frame} (hi : pool.find n = some i) :
    pool.modifyFrame n f = pool.setFrame i (f (pool.frames i)) := by
  rw [BufferPool.modifyFrame, hi]

theorem modifyFrame_of_absent {f : Frame → Frame} (hn : pool.find n = none) :
    pool.modifyFrame n f = pool := by
  rw [BufferPool.modifyFrame, hn]

/-- Frames keep the pages they have. -/
theorem page_modifyFrame {f : Frame → Frame}
    (hf : ∀ frame d, frame.page = some (n, d) → ∃ d', (f frame).page = some (n, d'))
    (hi : (pool.frames i).page = some (m, d)) :
    ∃ d', ((pool.modifyFrame n f).frames i).page = some (m, d') := by
  rw [BufferPool.modifyFrame]
  split
  · next j hj =>
      rw [frames_setFrame, Function.update_apply]
      split
      · next hij =>
          obtain ⟨e, he⟩ := find_eq_some hj
          rw [hij, he] at hi
          obtain ⟨rfl, -⟩ := Prod.mk.inj (Option.some_inj.mp hi)
          exact hf _ e he
      · exact ⟨d, hi⟩
  · exact ⟨d, hi⟩

theorem modify (h : pool.Mirrors a) (hpinned : a.pins n ≠ 0) (data : PageData) :
    (pool.writeThrough n data).Mirrors ((PoolOp.modify n data).effect a) := by
  cases hfind : pool.find n with
  | none => exact absurd (h.absent n (find_eq_none hfind)).1 hpinned
  | some i =>
      obtain ⟨d, hi⟩ := find_eq_some hfind
      obtain ⟨-, hpins, hdirty, -⟩ := h.loaded i n d hi
      rw [BufferPool.writeThrough, modifyFrame_of_find hfind]
      refine h.setFrame_loaded hi rfl ⟨?_, hpins, hdirty, fun hclean howed => ?_⟩ (h.used i) rfl
        (fun m hm => ⟨?_, rfl, rfl, ?_⟩) (fun _ => hpinned) (fun _ => hpinned) (h.pins_le n)
      · show data = Function.update a.pages n data n
        rw [Function.update_self]
      · -- a write that is not marked is owed
        have hmarked : a.marked n = false :=
          Bool.eq_false_iff.mpr fun hm => Bool.eq_false_iff.mp hclean (hdirty hm)
        rw [PoolOp.effect] at howed
        dsimp only at howed
        rw [Function.update_self, hmarked, Bool.not_false, Bool.or_true] at howed
        cases howed
      · exact Function.update_of_ne hm _ _
      · exact Function.update_of_ne hm _ _

theorem markDirty (h : pool.Mirrors a) (n : PageNum) :
    (bufferPoolMarkDirty pool n).Mirrors ((PoolOp.markDirty n).effect a) := by
  rw [bufferPoolMarkDirty, PoolOp.effect]
  cases hfind : pool.find n with
  | none =>
      rw [modifyFrame_of_absent hfind, if_pos (h.absent n (find_eq_none hfind)).1]
      exact h
  | some i =>
      obtain ⟨d, hi⟩ := find_eq_some hfind
      obtain ⟨hdata, hpins, hdirty, hclean⟩ := h.loaded i n d hi
      rw [modifyFrame_of_find hfind]
      split
      · next hzero =>
          refine h.setFrame_loaded hi hi ⟨hdata, hpins, fun _ => rfl, fun ht => ?_⟩ (h.used i) rfl
            (fun m hm => ⟨rfl, rfl, rfl, rfl⟩) (h.owed_pinned n) (h.marked_pinned n) (h.pins_le n)
          cases ht
      · next hpinned =>
          refine h.setFrame_loaded hi hi ⟨hdata, hpins, fun _ => rfl, fun ht => ?_⟩ (h.used i) rfl
            (fun m hm => ⟨rfl, rfl, ?_, ?_⟩) (fun _ => hpinned) (fun _ => hpinned) (h.pins_le n)
          · cases ht
          · exact Function.update_of_ne hm _ _
          · exact Function.update_of_ne hm _ _

theorem unpin (h : pool.Mirrors a) (howed : a.pins n ≤ 1 → a.owed n = false) :
    (bufferPoolUnpin pool n).Mirrors ((PoolOp.unpin n).effect a) := by
  rw [bufferPoolUnpin]
  cases hfind : pool.find n with
  | none =>
      have hzero := (h.absent n (find_eq_none hfind)).1
      have heffect : (PoolOp.unpin n).effect a = a := by
        have hpins : Function.update a.pins n (a.pins n - 1) = a.pins := by
          rw [hzero, Nat.zero_sub, ← hzero, Function.update_eq_self]
        have hmarked : Function.update a.marked n (a.marked n && decide (1 < a.pins n)) =
            a.marked := by
          rw [(h.unpinned hzero).2, Bool.false_and, ← (h.unpinned hzero).2,
            Function.update_eq_self]
        rw [PoolOp.effect, PageArray.setPins, hpins, hmarked]
      rw [modifyFrame_of_absent hfind, heffect]
      exact h
  | some i =>
      obtain ⟨d, hi⟩ := find_eq_some hfind
      obtain ⟨hdata, hpins, hdirty, hclean⟩ := h.loaded i n d hi
      have hpins' : ((PoolOp.unpin n).effect a).pins n = a.pins n - 1 := pins_setPins a n _
      have hmarked' : ((PoolOp.unpin n).effect a).marked n =
          (a.marked n && decide (1 < a.pins n)) := Function.update_self _ _ _
      rw [modifyFrame_of_find hfind]
      refine h.setFrame_loaded hi hi ⟨hdata, ?_, fun hm => ?_, hclean⟩ (h.used i) rfl
        (fun m hm => ⟨rfl, pins_setPins_of_ne hm a _, ?_, rfl⟩) (fun ho => ?_) (fun hm => ?_) ?_
      · rw [hpins', hpins]
      · rw [hmarked', Bool.and_eq_true] at hm
        exact hdirty hm.1
      · exact Function.update_of_ne hm _ _
      · -- with a write that is not marked this was not the last pin
        rw [hpins']
        intro hzero
        have hfalse := howed (by omega)
        exact absurd (hfalse.symm.trans ho) (by decide)
      · rw [hmarked', Bool.and_eq_true, decide_eq_true_eq] at hm
        rw [hpins']
        omega
      · rw [hpins']
        exact (Nat.sub_le _ _).trans (h.pins_le n)

/-! ## Flushing and reopening -/

theorem page_flushFrame (pool : BufferPool) (i j : Fin poolSize) :
    ((pool.flushFrame i).frames j).page = (pool.frames j).page := by
  rw [BufferPool.flushFrame]
  split
  · rw [frames_setFrame, Function.update_apply]
    split
    · next hji => rw [hji]
    · rw [frames_writeBack]
  · rfl

theorem flushFrame (h : pool.Mirrors a) (hmarked : ∀ n, a.marked n = false) (i : Fin poolSize) :
    (pool.flushFrame i).Mirrors a := by
  rw [BufferPool.flushFrame]
  split
  · next hflush =>
      rw [Bool.and_eq_true] at hflush
      obtain ⟨⟨n, d⟩, hi⟩ := Option.isSome_iff_exists.mp hflush.1
      obtain ⟨hdata, hpins, -, -⟩ := h.loaded i n d hi
      have hread := h.pagerRead_writeBack hi (Or.inl hflush.2)
      refine (h.writeBack i).setFrame_loaded (n := n) (d := d) ?_ hi
        ⟨hdata, hpins, fun hm => absurd (hm.symm.trans (hmarked n)) (by decide),
          fun _ _ => hread⟩ ?_ rfl (fun m _ => ⟨rfl, rfl, rfl, rfl⟩) (h.owed_pinned n)
        (h.marked_pinned n) (h.pins_le n)
      · rw [frames_writeBack]
        exact hi
      · rw [clock_writeBack]
        exact h.used i
  · exact h

/-- The frame is clean afterwards, and no other becomes dirty. -/
theorem isDirty_flushFrame (h : pool.Mirrors a)
    (hj : ((pool.flushFrame i).frames j).isDirty = true) :
    (pool.frames j).isDirty = true ∧ j ≠ i := by
  rw [BufferPool.flushFrame] at hj
  split at hj
  · rw [frames_setFrame, Function.update_apply] at hj
    split at hj
    · cases hj
    · next hji =>
        rw [frames_writeBack] at hj
        exact ⟨hj, hji⟩
  · next hclean =>
      refine ⟨hj, ?_⟩
      rintro rfl
      rw [hj, Bool.and_true] at hclean
      rw [(h.empty j (Option.not_isSome_iff_eq_none.mp hclean)).2] at hj
      cases hj

theorem foldl_flushFrame (hmarked : ∀ n, a.marked n = false) (l : List (Fin poolSize))
    (h : pool.Mirrors a) :
    (l.foldl BufferPool.flushFrame pool).Mirrors a ∧
      ∀ j, ((l.foldl BufferPool.flushFrame pool).frames j).page = (pool.frames j).page ∧
        (((l.foldl BufferPool.flushFrame pool).frames j).isDirty = true →
          (pool.frames j).isDirty = true ∧ j ∉ l) := by
  induction l generalizing pool with
  | nil => exact ⟨h, fun j => ⟨rfl, fun hj => ⟨hj, List.not_mem_nil⟩⟩⟩
  | cons i l ih =>
      obtain ⟨hmirrors, hframes⟩ := ih (h.flushFrame hmarked i)
      refine ⟨hmirrors, fun j => ⟨(hframes j).1.trans (page_flushFrame pool i j), fun hj => ?_⟩⟩
      obtain ⟨hdirty, hmem⟩ := (hframes j).2 hj
      obtain ⟨hdirty, hne⟩ := h.isDirty_flushFrame hdirty
      exact ⟨hdirty, fun hj => (List.mem_cons.mp hj).elim hne hmem⟩

theorem flushAll (h : pool.Mirrors a) :
    (bufferPoolFlushAll pool).Mirrors (PoolOp.flushAll.effect a) :=
  (foldl_flushFrame (fun _ => rfl) _ h.forget_marks).1

theorem page_flushAll (h : pool.Mirrors a) (i : Fin poolSize) :
    ((bufferPoolFlushAll pool).frames i).page = (pool.frames i).page :=
  ((foldl_flushFrame (fun _ => rfl) _ h.forget_marks).2 i).1

theorem isDirty_flushAll (h : pool.Mirrors a) (i : Fin poolSize) :
    ((bufferPoolFlushAll pool).frames i).isDirty = false :=
  Bool.eq_false_iff.mpr fun hi =>
    (((foldl_flushFrame (fun _ => rfl) _ h.forget_marks).2 i).2 hi).2 (List.mem_finRange i)

/-- A pool that is closed leaves all pages in the file. -/
theorem pagerRead_close (h : pool.Mirrors a) (howed : ∀ n, a.owed n = false) (n : PageNum) :
    pagerRead (bufferPoolClose pool) n = a.pages n := by
  rcases Classical.em (∃ i d, ((bufferPoolFlushAll pool).frames i).page = some (n, d)) with
    ⟨i, d, hi⟩ | hn
  · obtain ⟨hdata, -, -, hclean⟩ := h.flushAll.loaded i n d hi
    exact (hclean (h.isDirty_flushAll i) (howed n)).trans hdata
  · exact (h.flushAll.absent n fun i d hi => hn ⟨i, d, hi⟩).2

/-- A fresh pool holds what its file does. -/
theorem init (file : List UInt8) (hfile : ∀ n, pagerRead file n = a.pages n)
    (hpins : ∀ n, a.pins n = 0) (hmarked : ∀ n, a.marked n = false)
    (howed : ∀ n, a.owed n = false) (hgets : a.gets = 0) :
    (bufferPoolInit file).Mirrors a where
  distinct _ _ _ _ _ hi := by cases hi
  loaded _ _ _ hi := by cases hi
  absent n _ := ⟨hpins n, hfile n⟩
  empty _ _ := ⟨rfl, rfl⟩
  used _ := le_rfl
  clock_eq := hgets.symm
  owed_pinned n hn := absurd (hn.symm.trans (howed n)) (by decide)
  marked_pinned n hn := absurd (hn.symm.trans (hmarked n)) (by decide)
  pins_le n := (hpins n).trans_le (Nat.zero_le _)

end BufferPool.Mirrors

/-! ## One call -/

/-- An allowed call answers as the array does and evicts no pinned page. -/
theorem PoolOp.run_mirrors (h : pool.Mirrors a) {op : PoolOp} (hop : op.Allowed a) :
    ∃ pool', op.run pool = some (op.answer a, pool') ∧ pool'.Mirrors (op.effect a) ∧
      (op ≠ .reopen → ∀ i m d, (pool.frames i).pinCount ≠ 0 →
        (pool.frames i).page = some (m, d) → ∃ d', (pool'.frames i).page = some (m, d')) := by
  cases op with
  | getPage n =>
      obtain ⟨pool', hrun, hmirrors, hpinned⟩ := h.getPage n hop
      exact ⟨pool', hrun, hmirrors, fun _ => hpinned⟩
  | modify n data =>
      refine ⟨_, rfl, h.modify hop data, fun _ i m d _ hi => ?_⟩
      exact BufferPool.Mirrors.page_modifyFrame (fun _ _ _ => ⟨data, rfl⟩) hi
  | markDirty n =>
      refine ⟨_, rfl, h.markDirty n, fun _ i m d _ hi => ?_⟩
      exact BufferPool.Mirrors.page_modifyFrame (fun _ e he => ⟨e, he⟩) hi
  | unpin n =>
      refine ⟨_, rfl, h.unpin hop, fun _ i m d _ hi => ?_⟩
      exact BufferPool.Mirrors.page_modifyFrame (fun _ e he => ⟨e, he⟩) hi
  | flushAll =>
      refine ⟨_, rfl, h.flushAll, fun _ i m d _ hi => ⟨d, ?_⟩⟩
      exact (h.page_flushAll i).trans hi
  | reopen =>
      refine ⟨_, rfl, ?_, fun hne => absurd rfl hne⟩
      exact BufferPool.Mirrors.init _ (h.pagerRead_close hop) (fun _ => rfl) (fun _ => rfl) hop rfl

end Frames

/-! ## Whole runs -/

/-- The pool after the calls and what they returned; nothing if a counter runs over. -/
def poolRun (pool : BufferPool) : List PoolOp → Option (List (Option PageData) × BufferPool)
  | [] => some ([], pool)
  | op :: ops =>
      match op.run pool with
      | none => none
      | some (answer, pool) => (poolRun pool ops).map fun r => (answer :: r.1, r.2)

def PageArray.after (a : PageArray) (ops : List PoolOp) : PageArray :=
  ops.foldl PoolOp.effect a

def PageArray.answers (a : PageArray) : List PoolOp → List (Option PageData)
  | [] => []
  | op :: ops => op.answer a :: PageArray.answers (op.effect a) ops

/-- All calls of a run are allowed where they are made. -/
def Disciplined (a : PageArray) : List PoolOp → Prop
  | [] => True
  | op :: ops => op.Allowed a ∧ Disciplined (op.effect a) ops

instance decidableDisciplined (a : PageArray) : (ops : List PoolOp) → Decidable (Disciplined a ops)
  | [] => isTrue trivial
  | op :: ops =>
      have := decidableDisciplined (op.effect a) ops
      inferInstanceAs (Decidable (_ ∧ _))

theorem poolRun_mirrors {ops : List PoolOp} {pool : BufferPool} {a : PageArray}
    (h : pool.Mirrors a) (hops : Disciplined a ops) :
    ∃ pool', poolRun pool ops = some (a.answers ops, pool') ∧ pool'.Mirrors (a.after ops) := by
  induction ops generalizing pool a with
  | nil => exact ⟨pool, rfl, h⟩
  | cons op ops ih =>
      obtain ⟨hop, hrest⟩ := hops
      obtain ⟨next, hrun, hnext, -⟩ := PoolOp.run_mirrors h hop
      obtain ⟨pool', hpool', hmirrors⟩ := ih hnext hrest
      refine ⟨pool', ?_, hmirrors⟩
      rw [poolRun, hrun]
      show (poolRun next ops).map _ = _
      rw [hpool']
      rfl

/-- A disciplined run answers as the array does; no page is in two frames, the next call evicts no
pinned page, and the file of the closed pool has every page as it was last written. -/
theorem bufferPool_refines_array (file : List UInt8) (ops : List PoolOp)
    (h : Disciplined (PageArray.ofFile file) ops) :
    ∃ pool, poolRun (bufferPoolInit file) ops =
        some ((PageArray.ofFile file).answers ops, pool) ∧
      (∀ i j n d e, (pool.frames i).page = some (n, d) → (pool.frames j).page = some (n, e) →
        i = j) ∧
      (∀ op : PoolOp, op ≠ .reopen → op.Allowed ((PageArray.ofFile file).after ops) →
        ∃ answer pool', op.run pool = some (answer, pool') ∧
          ∀ i n d, (pool.frames i).pinCount ≠ 0 → (pool.frames i).page = some (n, d) →
            ∃ d', (pool'.frames i).page = some (n, d')) ∧
      ((∀ n, ((PageArray.ofFile file).after ops).owed n = false) →
        ∀ n, pagerRead (bufferPoolClose pool) n =
          ((PageArray.ofFile file).after ops).pages n) := by
  have hinit : (bufferPoolInit file).Mirrors (PageArray.ofFile file) :=
    BufferPool.Mirrors.init file (fun _ => rfl) (fun _ => rfl) (fun _ => rfl) (fun _ => rfl) rfl
  obtain ⟨pool, hrun, hmirrors⟩ := poolRun_mirrors hinit h
  refine ⟨pool, hrun, hmirrors.distinct, fun op hne hop => ?_, hmirrors.pagerRead_close⟩
  obtain ⟨pool', hstep, -, hpinned⟩ := PoolOp.run_mirrors hmirrors hop
  exact ⟨_, pool', hstep, hpinned hne⟩

/-- A page of ones. -/
def onesPage : PageData :=
  Vector.replicate 4096 1

/-- A page is written, and read again in the next session. -/
def writeAndReopen : List PoolOp :=
  [.getPage 3, .modify 3 onesPage, .markDirty 3, .unpin 3, .reopen, .getPage 3]

theorem bufferPool_refines_array_writeAndReopen :
    ∃ pool, poolRun (bufferPoolInit []) writeAndReopen =
        some ((PageArray.ofFile []).answers writeAndReopen, pool) := by
  obtain ⟨pool, hrun, -⟩ := bufferPool_refines_array [] writeAndReopen (by decide)
  exact ⟨pool, hrun⟩

/-- Ten pages are pinned and an eleventh is asked for. -/
def elevenPages : List PoolOp :=
  [.getPage 0, .getPage 1, .getPage 2, .getPage 3, .getPage 4, .getPage 5, .getPage 6, .getPage 7,
    .getPage 8, .getPage 9, .getPage 10]

theorem pagerRead_nil_ne : pagerRead [] 0 ≠ onesPage := by
  intro h
  have hfirst : (pagerRead [] 0)[0] = onesPage[0] := congrArg (fun data => data[0]) h
  rw [pagerRead, PagedFile.readPage, Vector.getElem_ofFn, onesPage, Vector.getElem_replicate]
    at hfirst
  exact absurd hfirst (by decide)

/-- The eleventh page is refused; a write that is not marked before the pool is closed is lost,
and so is one that was marked before a flush of all pages only. -/
theorem bufferPoolGetPage_refuses :
    (poolRun (bufferPoolInit []) elevenPages).map (fun r => r.1.map Option.isSome) =
      some (List.replicate 10 true ++ [false]) ∧
    (poolRun (bufferPoolInit []) [.getPage 0, .modify 0 onesPage, .reopen, .getPage 0]).map
      (fun r => r.1.getLastD none) ≠ some (some onesPage) ∧
    (poolRun (bufferPoolInit [])
      [.getPage 0, .markDirty 0, .flushAll, .modify 0 onesPage, .unpin 0, .reopen,
        .getPage 0]).map (fun r => r.1.getLastD none) ≠ some (some onesPage) := by
  refine ⟨by decide, fun h => ?_, fun h => ?_⟩
  · have hread : some (some (pagerRead [] 0)) = some (some onesPage) := h
    exact pagerRead_nil_ne (Option.some_inj.mp (Option.some_inj.mp hread))
  · have hread : some (some (pagerRead (pagerWrite [] 0 (pagerRead [] 0)) 0)) =
        some (some onesPage) := h
    rw [show pagerRead (pagerWrite [] 0 (pagerRead [] 0)) 0 = pagerRead [] 0 from
      PagedFile.readPage_writePage 0 _ _] at hread
    exact pagerRead_nil_ne (Option.some_inj.mp (Option.some_inj.mp hread))

end Storage
end InventixDB
