import InventixDB.Storage.PageCompression

/-!
# PageUpdates — what an update leaves when it fails

An update that does not fit in the place of the old record deletes that record before it looks for
room, and does not put it back where there is none.  The flags of a page are read by compress and
decompress only, so what is known of a plain page goes for every reachable one.
-/

namespace InventixDB
namespace Storage

open Lib Lib.ByteCodec SlottedPage

/-! ## The flags -/

namespace SlottedPage

variable {page : SlottedPage} {pos p w u v len i : Nat} {data : List UInt8}

theorem field_setFlags (hd : p + w ≤ 10 ∨ 12 ≤ p) :
    (page.setFlags u).field p w = page.field p w :=
  field_setField_of_disjoint hd

theorem load_setFlags (hp : 12 ≤ p) : (page.setFlags u).load p len = page.load p len :=
  load_setField_of_disjoint (Or.inr hp)

theorem store_setFlags (hd : pos + data.length ≤ 10 ∨ 12 ≤ pos) :
    (page.setFlags u).store pos data = (page.store pos data).setFlags u := by
  refine SlottedPage.ext (Buffer.write_comm ?_)
  rw [length_leBytes]
  exact hd.symm

theorem setField_setFlags (hd : pos + w ≤ 10 ∨ 12 ≤ pos) :
    (page.setFlags u).setField pos w v = (page.setField pos w v).setFlags u :=
  store_setFlags (by rwa [length_leBytes])

theorem setFlags_setFlags : (page.setFlags u).setFlags v = page.setFlags v := by
  refine SlottedPage.ext (Buffer.write_write ?_)
  rw [length_leBytes, length_leBytes]

theorem setFlags_flags : page.setFlags page.flags = page := by
  refine SlottedPage.ext ?_
  have hlen : (Buffer.read page.bytes 10 2).length = 2 := by
    refine Buffer.length_read ?_
    rw [page.size]
    decide
  have hback : leBytes 2 page.flags = Buffer.read page.bytes 10 2 := by
    have hround := leBytes_leNat (Buffer.read page.bytes 10 2)
    rwa [hlen] at hround
  show Buffer.write page.bytes 10 (leBytes 2 page.flags) = page.bytes
  rw [hback]
  refine Buffer.write_read ?_
  rw [page.size]
  decide

@[simp]
theorem slotCount_setFlags : (page.setFlags u).slotCount = page.slotCount :=
  field_setFlags (by decide)

@[simp]
theorem freeSpaceEnd_setFlags : (page.setFlags u).freeSpaceEnd = page.freeSpaceEnd :=
  field_setFlags (by decide)

@[simp]
theorem slotOffset_setFlags : (page.setFlags u).slotOffset i = page.slotOffset i :=
  field_setFlags (Or.inr (by rw [slotPos_eq]; omega))

@[simp]
theorem slotLength_setFlags : (page.setFlags u).slotLength i = page.slotLength i :=
  field_setFlags (Or.inr (by rw [slotPos_eq]; omega))

@[simp]
theorem freeSpace_setFlags :
    slottedPageFreeSpace (page.setFlags u) = slottedPageFreeSpace page := by
  rw [slottedPageFreeSpace, slottedPageFreeSpace, slotCount_setFlags, freeSpaceEnd_setFlags]

theorem setSlotCount_setFlags :
    (page.setFlags u).setSlotCount v = (page.setSlotCount v).setFlags u :=
  setField_setFlags (by decide)

theorem setFreeSpaceStart_setFlags :
    (page.setFlags u).setFreeSpaceStart v = (page.setFreeSpaceStart v).setFlags u :=
  setField_setFlags (by decide)

theorem setFreeSpaceEnd_setFlags :
    (page.setFlags u).setFreeSpaceEnd v = (page.setFreeSpaceEnd v).setFlags u :=
  setField_setFlags (by decide)

theorem setSlotOffset_setFlags :
    (page.setFlags u).setSlotOffset i v = (page.setSlotOffset i v).setFlags u :=
  setField_setFlags (Or.inr (by rw [slotPos_eq]; omega))

theorem setSlotLength_setFlags :
    (page.setFlags u).setSlotLength i v = (page.setSlotLength i v).setFlags u :=
  setField_setFlags (Or.inr (by rw [slotPos_eq]; omega))

end SlottedPage

/-! ## Operations on a page with other flags -/

section Flags

variable {page : SlottedPage} {recs : Records} {slot u k : Nat} {data : List UInt8}

/-- The records of a page lie behind its flags. -/
theorem SlottedPage.Holds.freeSpaceEnd_ge (h : page.Holds recs) : 20 ≤ page.freeSpaceEnd := by
  have hroom := h.room
  rw [slotPos_eq] at hroom
  omega

theorem SlottedPage.Holds.slotOffset_ge (h : page.Holds recs) (hlive : page.Live slot) :
    20 ≤ page.slotOffset slot := by
  obtain ⟨old, hold⟩ := h.live_iff.mp hlive
  have hend := h.freeSpaceEnd_ge
  have hge := h.offset_ge slot old hold
  omega

theorem SlottedPage.Holds.get_setFlags (h : page.Holds recs) :
    slottedPageGet (page.setFlags u) slot = slottedPageGet page slot := by
  rw [slottedPageGet, slottedPageGet, slotCount_setFlags, slotLength_setFlags, slotOffset_setFlags]
  split
  · rfl
  next hslot =>
    split
    · rfl
    next hlen =>
      have hge := h.slotOffset_ge ⟨Nat.lt_of_not_le hslot, hlen⟩
      rw [load_setFlags (by omega)]

theorem Compaction.move_setFlags (page : SlottedPage) (temp : List UInt8) (writePos : Nat)
    (hlive : page.slotLength k > 0 → 12 ≤ page.slotOffset k) :
    Compaction.move { page := page.setFlags u, temp := temp, writePos := writePos } k =
      let c := Compaction.move { page := page, temp := temp, writePos := writePos } k
      { c with page := c.page.setFlags u } := by
  unfold Compaction.move
  dsimp only
  rw [slotLength_setFlags, slotOffset_setFlags]
  by_cases hlen : page.slotLength k > 0
  · rw [if_pos hlen, if_pos hlen, load_setFlags (hlive hlen), setSlotOffset_setFlags]
  · rw [if_neg hlen, if_neg hlen]

/-- A move writes the offset of its own slot only. -/
theorem Compaction.fields_move (c : Compaction) {i : Nat} (hi : i ≠ k) :
    (c.move k).page.slotLength i = c.page.slotLength i ∧
      (c.move k).page.slotOffset i = c.page.slotOffset i := by
  unfold Compaction.move
  dsimp only
  split
  · constructor
    · exact field_setField_of_disjoint (by simp only [slotPos_eq]; omega)
    · exact field_setField_of_disjoint (by simp only [slotPos_eq]; omega)
  · exact ⟨rfl, rfl⟩

theorem Compaction.loop_setFlags (c : Compaction)
    (hlive : ∀ i < k, c.page.slotLength i > 0 → 12 ≤ c.page.slotOffset i) :
    Compaction.loop k { c with page := c.page.setFlags u } =
      { Compaction.loop k c with page := (Compaction.loop k c).page.setFlags u } := by
  induction k generalizing c with
  | zero => rfl
  | succ k ih =>
      rw [Compaction.loop, Compaction.loop,
        Compaction.move_setFlags c.page c.temp c.writePos (hlive k (Nat.lt_succ_self k))]
      refine ih (c.move k) fun i hi hlen => ?_
      obtain ⟨hsame, hoffset⟩ := c.fields_move (Nat.ne_of_lt hi)
      rw [hsame] at hlen
      rw [hoffset]
      exact hlive i (Nat.lt_succ_of_lt hi) hlen

theorem SlottedPage.Holds.compact_setFlags (h : page.Holds recs) :
    slottedPageCompact (page.setFlags u) = (slottedPageCompact page).setFlags u := by
  rw [slottedPageCompact, slottedPageCompact, slotCount_setFlags]
  split
  · rfl
  · have hloop := Compaction.loop_setFlags (u := u) (k := page.slotCount)
      { page := page, temp := List.replicate pageSizeSe 0, writePos := pageSizeSe }
      fun i hi hlen => by
        have hge := h.slotOffset_ge ⟨hi, Nat.ne_of_gt hlen⟩
        exact Nat.le_trans (by decide) hge
    have hc := (Compaction.Moved.start page recs).loop h le_rfl
    rw [← h.slotCount_eq] at hc
    dsimp only at hloop ⊢
    rw [hloop]
    generalize Compaction.loop page.slotCount _ = c at hc
    have hwrite := hc.writePos_eq
    rw [List.drop_zero] at hwrite
    have hused := h.used_le
    have hend := h.freeSpaceEnd_ge
    dsimp only
    rw [store_setFlags (by omega), setFreeSpaceEnd_setFlags]

theorem SlottedPage.Holds.makeRoom_setFlags (h : page.Holds recs) (needed : Nat) :
    makeRoom (page.setFlags u) needed =
      ((makeRoom page needed).1, (makeRoom page needed).2.setFlags u) := by
  rw [makeRoom, makeRoom, freeSpace_setFlags, h.compact_setFlags]
  split
  · dsimp only
    rw [freeSpace_setFlags]
  · rfl

theorem delete_setFlags (page : SlottedPage) (slot : Nat) :
    slottedPageDelete (page.setFlags u) slot =
      ((slottedPageDelete page slot).1, (slottedPageDelete page slot).2.setFlags u) := by
  rw [slottedPageDelete, slottedPageDelete, slotCount_setFlags, slotLength_setFlags,
    setSlotLength_setFlags]
  split
  · rfl
  · split <;> rfl

theorem freeSlot_setFlags (page : SlottedPage) : freeSlot (page.setFlags u) = freeSlot page := by
  simp only [freeSlot, slotCount_setFlags, slotLength_setFlags]

theorem placeRecord_setFlags (off : Nat) (hend : page.freeSpaceEnd ≤ pageSizeSe)
    (hfit : off + data.length = page.freeSpaceEnd) (hoff : 12 ≤ off) :
    placeRecord (page.setFlags u) slot data = (placeRecord page slot data).setFlags u := by
  unfold placeRecord
  rw [freeSpaceEnd_setFlags, recordOffset_eq hend hfit]
  dsimp only
  rw [store_setFlags (Or.inr hoff), setSlotOffset_setFlags, setSlotLength_setFlags]

/-- Behind a space check that succeeds, a record lies behind the flags. -/
theorem SlottedPage.Holds.place_setFlags (h : page.Holds recs)
    (hfits : data.length ≤ slottedPageFreeSpace page) :
    placeRecord (page.setFlags u) slot data = (placeRecord page slot data).setFlags u := by
  have hused := h.used_le
  have hroom := h.room
  rw [h.freeSpace_eq] at hfits
  rw [slotPos_eq] at hroom hfits
  exact placeRecord_setFlags (page.freeSpaceEnd - data.length) (by omega) (by omega) (by omega)

theorem SlottedPage.Holds.update_setFlags (h : page.Holds recs) (slot : Nat) (data : List UInt8) :
    slottedPageUpdate (page.setFlags u) slot data =
      ((slottedPageUpdate page slot data).1, (slottedPageUpdate page slot data).2.setFlags u) := by
  rw [slottedPageUpdate, slottedPageUpdate, slotCount_setFlags, slotLength_setFlags]
  by_cases hslot : slot ≥ page.slotCount
  · rw [if_pos hslot, if_pos hslot]
  rw [if_neg hslot, if_neg hslot]
  by_cases hlen : page.slotLength slot = 0
  · rw [if_pos hlen, if_pos hlen]
  rw [if_neg hlen, if_neg hlen]
  by_cases hshort : data.length ≤ page.slotLength slot
  · have hge := h.slotOffset_ge ⟨Nat.lt_of_not_le hslot, hlen⟩
    rw [if_pos hshort, if_pos hshort, slotOffset_setFlags, store_setFlags (Or.inr (by omega)),
      setSlotLength_setFlags]
  rw [if_neg hshort, if_neg hshort, delete_setFlags]
  have hdelete := h.delete slot
  generalize slottedPageDelete page slot = deleted at hdelete
  obtain ⟨ok, page₁⟩ := deleted
  have hpage₁ : ∃ recs₁, page₁.Holds recs₁ := by
    cases ok with
    | false => exact ⟨recs, hdelete.1 ▸ h⟩
    | true => exact ⟨_, hdelete.2.2⟩
  obtain ⟨recs₁, hpage₁⟩ := hpage₁
  obtain ⟨hroomed, hneeded⟩ := hpage₁.madeRoom data.length
  dsimp only
  rw [hpage₁.makeRoom_setFlags]
  generalize makeRoom page₁ data.length = r at hroomed hneeded
  obtain ⟨fits, page₂⟩ := r
  cases fits with
  | false => rfl
  | true =>
      dsimp only at hroomed hneeded ⊢
      rw [Bool.not_true, if_neg Bool.false_ne_true, if_neg Bool.false_ne_true,
        freeSpaceEnd_setFlags, hroomed.place_setFlags (hneeded rfl), setFreeSpaceEnd_setFlags]

theorem SlottedPage.Holds.insert_setFlags (h : page.Holds recs) (data : List UInt8) :
    slottedPageInsert (page.setFlags u) data =
      ((slottedPageInsert page data).1, (slottedPageInsert page data).2.setFlags u) := by
  rw [slottedPageInsert, slottedPageInsert]
  by_cases hempty : data.length = 0
  · rw [if_pos hempty, if_pos hempty]
  rw [if_neg hempty, if_neg hempty, h.makeRoom_setFlags]
  obtain ⟨hroomed, hneeded⟩ := h.madeRoom (data.length + slotEntrySize)
  generalize makeRoom page (data.length + slotEntrySize) = r at hroomed hneeded
  obtain ⟨fits, page₁⟩ := r
  cases fits with
  | false => rfl
  | true =>
      have hfits := hneeded rfl
      dsimp only at hroomed hfits ⊢
      rw [Bool.not_true, if_neg Bool.false_ne_true, if_neg Bool.false_ne_true, freeSlot_setFlags]
      by_cases hmany : freeSlot page₁ ≥ maxSlotCount
      · rw [if_pos hmany, if_pos hmany]
      rw [if_neg hmany, if_neg hmany, freeSpaceEnd_setFlags,
        hroomed.place_setFlags (by omega), slotCount_setFlags]
      by_cases hnew : freeSlot page₁ ≥ (placeRecord page₁ (freeSlot page₁) data).slotCount
      · rw [if_pos hnew, if_pos hnew, setSlotCount_setFlags, setFreeSpaceStart_setFlags,
          setFreeSpaceEnd_setFlags]
      · rw [if_neg hnew, if_neg hnew, setFreeSpaceEnd_setFlags]

end Flags

/-! ## Other bytes in the record area -/

section Rewrite

variable {page : SlottedPage} {recs : Records} {i : Nat} {data : List UInt8}

/-- What the slots show of another page with the same directory. -/
def Records.reread (recs : Records) (page page' : SlottedPage) : Records :=
  recs.mapIdx fun i r => r.map fun data => page'.load (page.slotOffset i) data.length

theorem Records.at_reread (page page' : SlottedPage) : (recs.reread page page').at i =
    (recs.at i).map fun data => page'.load (page.slotOffset i) data.length := by
  rw [Records.at, Records.at, Records.reread, List.getElem?_mapIdx]
  cases recs[i]? <;> rfl

theorem SlottedPage.Holds.length_load (h : page.Holds recs) (page' : SlottedPage)
    (hat : recs.at i = some data) :
    (page'.load (page.slotOffset i) data.length).length = data.length := by
  have hin := h.in_page i data hat
  refine Buffer.length_read ?_
  rw [page'.size]
  exact Nat.le_trans hin (by decide)

theorem SlottedPage.Holds.used_reread (h : page.Holds recs) (page' : SlottedPage) :
    (recs.reread page page').map recordLength = recs.map recordLength := by
  refine List.ext_getElem (by simp [Records.reread]) fun i hi hi' => ?_
  rw [List.length_map] at hi'
  rw [List.getElem_map, List.getElem_map]
  simp only [Records.reread, List.getElem_mapIdx]
  cases hr : recs[i] with
  | none => rfl
  | some data =>
      have hat : recs.at i = some data := by
        rw [Records.at_eq_some, List.getElem?_eq_getElem hi', hr]
      exact h.length_load page' hat

/-- Writing over the record area leaves records of the same lengths in the same slots. -/
theorem SlottedPage.Holds.rewrite (h : page.Holds recs) (bytes : List UInt8) :
    ∃ recs', (page.store page.freeSpaceEnd bytes).Holds recs' := by
  have hfield : ∀ p w, p + w ≤ page.freeSpaceEnd →
      (page.store page.freeSpaceEnd bytes).field p w = page.field p w :=
    fun p w hp => field_store_of_disjoint (Or.inl hp)
  generalize page.store page.freeSpaceEnd bytes = page' at hfield
  have hroom := h.room
  rw [slotPos_eq] at hroom
  have hlen : (recs.reread page page').length = recs.length := List.length_mapIdx
  have hend : page'.freeSpaceEnd = page.freeSpaceEnd := hfield 8 2 (by omega)
  have hoffset : ∀ {i}, i < recs.length → page'.slotOffset i = page.slotOffset i := by
    intro i hi
    exact hfield _ _ (by rw [slotPos_eq]; omega)
  -- A record of the new page stands where the old page had one of the same length.
  have hbefore : ∀ {i d}, (recs.reread page page').at i = some d →
      ∃ old, recs.at i = some old ∧ d = page'.load (page.slotOffset i) old.length ∧
        d.length = old.length := by
    intro i d hat
    rw [Records.at_reread] at hat
    obtain ⟨old, hold, rfl⟩ := Option.map_eq_some_iff.mp hat
    exact ⟨old, hold, rfl, h.length_load page' hold⟩
  refine ⟨recs.reread page page', ?_⟩
  exact
    { flags_eq := (hfield 10 2 (by omega)).trans h.flags_eq
      slotCount_eq := by
        rw [hlen, ← h.slotCount_eq]
        exact hfield 4 2 (by omega)
      count_le := hlen ▸ h.count_le
      room := by
        rw [hlen, hend]
        exact h.room
      slotLength_eq := by
        intro i hi
        have hi' : i < recs.length := hlen ▸ hi
        have hsame := congrArg (fun lengths : List Nat => lengths[i]?) (h.used_reread page')
        rw [List.getElem?_map, List.getElem?_map, List.getElem?_eq_getElem hi,
          List.getElem?_eq_getElem hi'] at hsame
        have hread : page'.slotLength i = page.slotLength i :=
          hfield _ _ (by rw [slotPos_eq]; omega)
        rw [hread, h.slotLength_eq i hi']
        exact (Option.some_inj.mp hsame).symm
      ne_nil := by
        intro i d hat
        obtain ⟨old, hold, _, hlength⟩ := hbefore hat
        rintro rfl
        exact h.ne_nil i old hold (List.length_eq_zero_iff.mp hlength.symm)
      offset_ge := by
        intro i d hat
        obtain ⟨old, hold, _, _⟩ := hbefore hat
        rw [hend, hoffset (lt_of_at hold)]
        exact h.offset_ge i old hold
      in_page := by
        intro i d hat
        obtain ⟨old, hold, _, hlength⟩ := hbefore hat
        rw [hlength, hoffset (lt_of_at hold)]
        exact h.in_page i old hold
      load_eq := by
        intro i d hat
        obtain ⟨old, hold, hd, hlength⟩ := hbefore hat
        rw [hoffset (lt_of_at hold), hlength]
        exact hd.symm
      disjoint := by
        intro i j d d' hij hi hj
        obtain ⟨old, hold, _, hlength⟩ := hbefore hi
        obtain ⟨old', hold', _, hlength'⟩ := hbefore hj
        rw [hlength, hlength', hoffset (lt_of_at hold), hoffset (lt_of_at hold')]
        exact h.disjoint i j old old' hij hold hold'
      used_le := by
        rw [hend, Records.used, h.used_reread page']
        exact h.used_le }

end Rewrite

/-! ## Reachable pages -/

/-- The page behind an action, whether it succeeds or fails. -/
def SlottedPage.after (page : SlottedPage) : PageAction → SlottedPage
  | .op (.insert data) => (slottedPageInsert page data).2
  | .op (.delete slot) => (slottedPageDelete page slot).2
  | .op (.update slot data) => (slottedPageUpdate page slot data).2
  | .op .compact => slottedPageCompact page
  | .get _ => page
  | .compress => (slottedPageCompress page).2
  | .decompress scratch => (slottedPageDecompress scratch page).2

/-- The page has records in its slots, whatever its flags are. -/
def SlottedPage.Laid (page : SlottedPage) : Prop :=
  ∃ (plain : SlottedPage) (recs : Records) (u : Nat), plain.Holds recs ∧ page = plain.setFlags u

section Laid

variable {page page' : SlottedPage} {recs : Records} {slot u : Nat} {data : List UInt8}

theorem SlottedPage.Holds.laid (h : page.Holds recs) : page.Laid :=
  ⟨page, recs, page.flags, h, setFlags_flags.symm⟩

theorem SlottedPage.Laid.setFlags (h : page.Laid) (u : Nat) : (page.setFlags u).Laid := by
  obtain ⟨plain, recs, v, hplain, rfl⟩ := h
  exact ⟨plain, recs, u, hplain, setFlags_setFlags⟩

theorem SlottedPage.Laid.rewrite (h : page.Laid) (bytes : List UInt8) :
    (page.store page.freeSpaceEnd bytes).Laid := by
  obtain ⟨plain, recs, u, hplain, rfl⟩ := h
  obtain ⟨recs', hafter⟩ := hplain.rewrite bytes
  refine ⟨_, recs', u, hafter, ?_⟩
  have hend := hplain.freeSpaceEnd_ge
  rw [freeSpaceEnd_setFlags, store_setFlags (Or.inr (by omega))]

/-- A space check succeeds only where there is room beside the live records. -/
theorem SlottedPage.Holds.room_of_makeRoom {needed : Nat} (h : page.Holds recs)
    (hfits : (makeRoom page needed).1 = true) :
    slotPos (recs.length + 1) + recs.used + needed ≤ pageSizeSe := by
  obtain ⟨hroomed, hneeded⟩ := h.madeRoom needed
  have hfree := hneeded hfits
  have hroom := hroomed.room
  have hused := hroomed.used_le
  rw [hroomed.freeSpace_eq] at hfree
  omega

/-- An update of a live slot for which there is no room deletes its record and fails. -/
theorem SlottedPage.Holds.update_outgrown {old : List UInt8} (h : page.Holds recs)
    (hold : recs.at slot = some old) (hout : page.Outgrows slot data) :
    (slottedPageUpdate page slot data).1 = false ∧
      (slottedPageUpdate page slot data).2.Holds (recs.set slot none) := by
  have hlt := lt_of_at hold
  obtain ⟨hslot, hlen⟩ := h.live_iff.mpr ⟨old, hold⟩
  have hlong := hout.1
  rw [slottedPageUpdate, if_neg (by omega), if_neg hlen, if_neg (by omega)]
  have hdelete := h.delete slot
  generalize slottedPageDelete page slot = deleted at hdelete
  obtain ⟨ok, page₁⟩ := deleted
  cases ok with
  | false =>
      rw [hold] at hdelete
      cases hdelete.2
  | true =>
      have hpage₁ := hdelete.2.2
      have hset := Records.used_set hlt none
      have hget := (List.getElem?_eq_some_iff.mp (Records.at_eq_some.mp hold)).2
      have hzero : recordLength none = 0 := rfl
      rw [hget, recordLength_some] at hset
      have hover := hout.2
      rw [h.liveBytes_eq, h.slotCount_eq, h.slotLength_live hold] at hover
      have hnoRoom : (makeRoom page₁ data.length).1 = false := by
        rw [Bool.eq_false_iff]
        intro hfits
        have hroom := hpage₁.room_of_makeRoom hfits
        rw [List.length_set] at hroom
        omega
      have hroomed := (hpage₁.madeRoom data.length).1
      dsimp only
      generalize makeRoom page₁ data.length = r at hnoRoom hroomed
      obtain ⟨fits, page₂⟩ := r
      cases hnoRoom
      exact ⟨rfl, hroomed⟩

/-- An update of a live slot with no bytes succeeds and deletes its record. -/
theorem SlottedPage.Holds.update_nil {old : List UInt8} (h : page.Holds recs)
    (hold : recs.at slot = some old) :
    (slottedPageUpdate page slot []).1 = true ∧
      (slottedPageUpdate page slot []).2.Holds (recs.set slot none) := by
  obtain ⟨hslot, hlen⟩ := h.live_iff.mpr ⟨old, hold⟩
  have hsame : page.store (page.slotOffset slot) [] = page :=
    SlottedPage.ext (Buffer.write_nil _ _)
  have hshort : ([] : List UInt8).length ≤ page.slotLength slot := Nat.zero_le _
  rw [slottedPageUpdate, if_neg (by omega), if_neg hlen, if_pos hshort, hsame]
  exact ⟨rfl, h.setSlotLength_zero hold⟩

/-- Every update leaves a page of records. -/
theorem SlottedPage.Holds.update_holds (h : page.Holds recs) (slot : Nat) (data : List UInt8) :
    ∃ recs', (slottedPageUpdate page slot data).2.Holds recs' := by
  by_cases hlive : page.Live slot
  · obtain ⟨old, hold⟩ := h.live_iff.mp hlive
    by_cases hempty : data = []
    · subst hempty
      exact ⟨_, (h.update_nil hold).2⟩
    by_cases hout : page.Outgrows slot data
    · exact ⟨_, (h.update_outgrown hold hout).2⟩
    · have hok := h.update_ok hold hout
      obtain ⟨recs', hafter, _⟩ := h.update hempty (Prod.ext hok rfl)
      exact ⟨recs', hafter⟩
  · rw [update_dead hlive]
    exact ⟨recs, h⟩

/-- An operation leaves a page of records, and the flags as they are. -/
theorem SlottedPage.Holds.after_op (h : page.Holds recs) (op : PageOp) (u : Nat) :
    (∃ recs', (page.after (.op op)).Holds recs') ∧
      (page.setFlags u).after (.op op) = (page.after (.op op)).setFlags u := by
  cases op with
  | insert data =>
      refine ⟨?_, congrArg Prod.snd (h.insert_setFlags data)⟩
      have hinsert := h.insert data
      rw [SlottedPage.after]
      generalize slottedPageInsert page data = r at hinsert
      obtain ⟨slot, page₁⟩ := r
      cases slot with
      | none => exact ⟨recs, hinsert⟩
      | some slot =>
          obtain ⟨_, recs', hafter, _⟩ := hinsert
          exact ⟨recs', hafter⟩
  | delete slot =>
      refine ⟨?_, congrArg Prod.snd (delete_setFlags page slot)⟩
      have hdelete := h.delete slot
      rw [SlottedPage.after]
      generalize slottedPageDelete page slot = r at hdelete
      obtain ⟨ok, page₁⟩ := r
      cases ok with
      | false => exact ⟨recs, hdelete.1 ▸ h⟩
      | true => exact ⟨_, hdelete.2.2⟩
  | update slot data =>
      exact ⟨h.update_holds slot data, congrArg Prod.snd (h.update_setFlags slot data)⟩
  | compact => exact ⟨⟨recs, h.compact⟩, h.compact_setFlags⟩

theorem SlottedPage.Laid.after (h : page.Laid) (action : PageAction) :
    (page.after action).Laid := by
  cases action with
  | op op =>
      obtain ⟨plain, recs, u, hplain, rfl⟩ := h
      obtain ⟨⟨recs', hafter⟩, hflags⟩ := hplain.after_op op u
      exact ⟨_, recs', u, hafter, hflags⟩
  | get slot => exact h
  | compress =>
      rw [SlottedPage.after, slottedPageCompress]
      split
      · exact h
      · split
        · exact (h.rewrite _).setFlags _
        · exact h
  | decompress scratch =>
      rw [SlottedPage.after, slottedPageDecompress]
      split
      · exact h
      · dsimp only
        split
        · exact (h.rewrite _).setFlags _
        · exact h

theorem laid_foldl (h : page.Laid) (actions : List PageAction) :
    (actions.foldl SlottedPage.after page).Laid := by
  induction actions generalizing page with
  | nil => exact h
  | cons action actions ih => exact ih (h.after action)

end Laid

/-! ## All or nothing -/

/-- An update that succeeds stores exactly the new record, and one that fails changes no record. -/
def AllOrNothing (page : SlottedPage) (slot : Nat) (data : List UInt8) : Prop :=
  ((slottedPageUpdate page slot data).1 = true →
      slottedPageGet (slottedPageUpdate page slot data).2 slot = some data) ∧
    ((slottedPageUpdate page slot data).1 = false → ∀ other,
      slottedPageGet (slottedPageUpdate page slot data).2 other = slottedPageGet page other)

section AllOrNothing

variable {page : SlottedPage} {recs : Records} {slot u : Nat} {data : List UInt8}

theorem SlottedPage.Holds.allOrNothing_iff (h : page.Holds recs) (slot : Nat) (data : List UInt8) :
    AllOrNothing page slot data ↔
      (page.Live slot → data ≠ [] ∧ ¬ page.Outgrows slot data) := by
  by_cases hlive : page.Live slot
  · obtain ⟨old, hold⟩ := h.live_iff.mp hlive
    have hgone : Records.at (recs.set slot none) slot = none := by
      rw [Records.at_set (lt_of_at hold), if_pos rfl]
    constructor
    · rintro ⟨hstores, hkeeps⟩ _
      refine ⟨?_, fun hout => ?_⟩
      · -- no bytes: the update succeeds, and there is no record
        rintro rfl
        obtain ⟨hok, hafter⟩ := h.update_nil hold
        have hget := hstores hok
        rw [hafter.get_eq, hgone] at hget
        cases hget
      · -- no room: the update fails, and the old record is gone
        obtain ⟨hfail, hafter⟩ := h.update_outgrown hold hout
        have hsame := hkeeps hfail slot
        rw [hafter.get_eq, hgone, h.get_eq, hold] at hsame
        cases hsame
    · intro hfits
      obtain ⟨hne, hroom⟩ := hfits hlive
      have hok := h.update_ok hold hroom
      obtain ⟨recs', hafter, hat⟩ := h.update hne (Prod.ext hok rfl)
      refine ⟨fun _ => ?_, fun hfail => ?_⟩
      · rw [hafter.get_eq, hat slot, if_pos rfl]
      · rw [hok] at hfail
        cases hfail
  · have hdead : slottedPageUpdate page slot data = (false, page) := update_dead hlive
    refine iff_of_true ⟨fun hok => ?_, fun _ other => ?_⟩ fun hyes => absurd hyes hlive
    · rw [hdead] at hok
      cases hok
    · rw [hdead]

/-- The flags of a page matter to none of its updates. -/
theorem SlottedPage.Holds.allOrNothing_setFlags (h : page.Holds recs) :
    AllOrNothing (page.setFlags u) slot data ↔ AllOrNothing page slot data := by
  obtain ⟨recs', hafter⟩ := h.update_holds slot data
  unfold AllOrNothing
  rw [h.update_setFlags]
  simp only [hafter.get_setFlags, h.get_setFlags]

theorem live_setFlags : (page.setFlags u).Live slot ↔ page.Live slot := by
  rw [Live, Live, slotCount_setFlags, slotLength_setFlags]

theorem outgrows_setFlags : (page.setFlags u).Outgrows slot data ↔ page.Outgrows slot data := by
  have hlengths : (page.setFlags u).slotLength = page.slotLength :=
    funext fun _ => slotLength_setFlags
  rw [Outgrows, Outgrows, liveBytes, liveBytes, slotCount_setFlags, hlengths]

/-- On every reachable page, an update is all or nothing just when there is no record in its slot,
or it stores a record for which there is room beside the others. -/
theorem update_all_or_nothing_iff (pageId : UInt32) (actions : List PageAction) (slot : Nat)
    (data : List UInt8) :
    AllOrNothing (actions.foldl SlottedPage.after (slottedPageInit pageId)) slot data ↔
      ((actions.foldl SlottedPage.after (slottedPageInit pageId)).Live slot →
        data ≠ [] ∧
          ¬ (actions.foldl SlottedPage.after (slottedPageInit pageId)).Outgrows slot data) := by
  have hlaid := laid_foldl (SlottedPage.Holds.init pageId).laid actions
  generalize actions.foldl SlottedPage.after (slottedPageInit pageId) = page at hlaid
  obtain ⟨plain, recs, u, hplain, rfl⟩ := hlaid
  rw [hplain.allOrNothing_setFlags, live_setFlags, outgrows_setFlags]
  exact hplain.allOrNothing_iff slot data

/-- A record of 512 bytes is to grow past the end of its page: the update fails, and the record is
gone. -/
theorem update_loses_record :
    let page := [PageAction.op (.insert zeroRecord)].foldl SlottedPage.after (slottedPageInit 1)
    let data := List.replicate 4073 7
    slottedPageGet page 0 = some zeroRecord ∧ (slottedPageUpdate page 0 data).1 = false ∧
      slottedPageGet (slottedPageUpdate page 0 data).2 0 = none ∧ ¬ AllOrNothing page 0 data := by
  intro page data
  have hpage : page = zeroPage := congrArg Prod.snd insert_zeroRecord
  have hold : Records.at [some zeroRecord] 0 = some zeroRecord := rfl
  have hlength : data.length = 4073 := List.length_replicate
  have hout : zeroPage.Outgrows 0 data := by
    rw [Outgrows, zeroPage_holds.liveBytes_eq, zeroPage_holds.slotCount_eq,
      zeroPage_holds.slotLength_live hold, length_zeroRecord, hlength]
    have hused : Records.used [some zeroRecord] = 512 := length_zeroRecord
    rw [hused]
    decide
  obtain ⟨hfail, hafter⟩ := zeroPage_holds.update_outgrown hold hout
  rw [hpage]
  refine ⟨zeroPage_holds.get_eq 0, hfail, hafter.get_eq 0, fun hkeeps => ?_⟩
  have hsame := hkeeps.2 hfail 0
  rw [hafter.get_eq, zeroPage_holds.get_eq, hold] at hsame
  cases hsame

end AllOrNothing

end Storage
end InventixDB
