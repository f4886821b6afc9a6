import InventixDB.Storage.Lz4
import InventixDB.Storage.PageLayout

/-!
# PageCompression — compressing the records of a page in place

`slotted_page_compress` overwrites the record area with its compressed image and sets a flag; the
slots keep the offsets of the plain records.  Only compress and decompress look at the flag, so
between the two every operation that reads or writes the record area goes wrong.
-/

namespace InventixDB
namespace Storage

open Lib Lib.ByteCodec SlottedPage

/-! ## Operations -/

/-- `PAGE_FLAG_COMPRESSED` -/
def pageFlagCompressed : Nat := 0x0001

/-- `COMPRESSION_THRESHOLD` -/
def compressionThreshold : Nat := 512

def slottedPageIsCompressed (page : SlottedPage) : Bool :=
  page.flags &&& pageFlagCompressed != 0

def SlottedPage.dataSize (page : SlottedPage) : Nat := sizeSub pageSizeSe page.freeSpaceEnd

/-- The record area, from the end of the free space to the end of the page. -/
def SlottedPage.dataArea (page : SlottedPage) : List UInt8 :=
  page.load page.freeSpaceEnd page.dataSize

/-- The compressed image saves more than 64 bytes. -/
def SlottedPage.Pays (page : SlottedPage) : Prop :=
  page.dataSize ≥ compressionThreshold ∧
    (compressLz4 page.dataArea pageSizeSe).length > 0 ∧
      (compressLz4 page.dataArea pageSizeSe).length < sizeSub page.dataSize 64

instance (page : SlottedPage) : Decidable page.Pays :=
  inferInstanceAs (Decidable (_ ∧ _ ∧ _))

def SlottedPage.packed (page : SlottedPage) : SlottedPage :=
  (page.store page.freeSpaceEnd (compressLz4 page.dataArea pageSizeSe)).setFlags
    (page.flags ||| pageFlagCompressed)

def slottedPageCompress (page : SlottedPage) : Int × SlottedPage :=
  if slottedPageIsCompressed page then (0, page)
  else if page.Pays then (1, page.packed)
  else (0, page)

/-- `scratch` is what the buffer for the output holds at the start. -/
def slottedPageDecompress (scratch : Vector UInt8 4096) (page : SlottedPage) : Int × SlottedPage :=
  if !slottedPageIsCompressed page then (0, page)
  else
    let r := decompressLz4 page.dataArea scratch.toList
    if r.1 > 0 then
      (1, (page.store page.freeSpaceEnd (r.2.take r.1)).setFlags
        (page.flags &&& (0xFFFF - pageFlagCompressed)))
    else (-1, page)

/-! ## A packed page -/

section Packed

variable {page : SlottedPage} {recs : Records} {slot pos p w v len : Nat}

/-- The encoder takes no match of length 15 for the record area. -/
def SlottedPage.NoFifteen (page : SlottedPage) : Prop :=
  ∀ p ∈ tokenStarts page.dataArea 0, (bestMatch page.dataArea p).len ≠ 15

theorem SlottedPage.Holds.freeSpaceEnd_le (h : page.Holds recs) :
    page.freeSpaceEnd ≤ pageSizeSe := by
  have hused := h.used_le
  omega

theorem SlottedPage.Holds.dataSize_eq (h : page.Holds recs) :
    page.dataSize = pageSizeSe - page.freeSpaceEnd := by
  have hend := h.freeSpaceEnd_le
  rw [SlottedPage.dataSize, sizeSub]
  rw [pageSizeSe] at hend ⊢
  omega

theorem SlottedPage.Holds.length_dataArea (h : page.Holds recs) :
    page.dataArea.length = page.dataSize := by
  have hend := h.freeSpaceEnd_le
  refine Buffer.length_read ?_
  rw [page.size, h.dataSize_eq]
  show page.freeSpaceEnd + (4096 - page.freeSpaceEnd) ≤ 5120
  rw [pageSizeSe] at hend
  omega

/-- A page that pays fits a token more into the output buffer, so all of it is compressed. -/
theorem SlottedPage.Holds.compress_eq (h : page.Holds recs) (hpays : page.Pays) :
    compressLz4 page.dataArea pageSizeSe =
      leBytes 4 page.dataArea.length ++ tokensFrom page.dataArea 0 := by
  obtain ⟨hsize, -, hshort⟩ := hpays
  have hend := h.freeSpaceEnd_le
  have hlen := h.length_dataArea
  rw [sizeSub] at hshort
  rw [h.dataSize_eq, pageSizeSe] at hsize hlen hshort
  rw [pageSizeSe] at hend ⊢
  rw [compressionThreshold] at hsize
  rw [compressLz4, if_neg (by omega)] at hshort ⊢
  exact compressLoop_complete (by omega)

/-- What lies before the record area is as it was, the flags apart. -/
theorem field_packed (hp : p + w ≤ page.freeSpaceEnd) (hd : p + w ≤ 10 ∨ 12 ≤ p) :
    page.packed.field p w = page.field p w := by
  rw [SlottedPage.packed, setFlags, field_setField_of_disjoint (by omega),
    field_store_of_disjoint (by omega)]

theorem flags_packed (h : page.Holds recs) : page.packed.flags = 3 := by
  rw [SlottedPage.packed, setFlags, flags, h.flags_eq, field_setField (by decide) (by decide)]
  rfl

theorem SlottedPage.Holds.isCompressed (h : page.Holds recs) :
    slottedPageIsCompressed page = false := by
  rw [slottedPageIsCompressed, h.flags_eq]
  rfl

theorem isCompressed_packed (h : page.Holds recs) :
    slottedPageIsCompressed page.packed = true := by
  rw [slottedPageIsCompressed, flags_packed h]
  rfl

theorem slotPos_le_freeSpaceEnd (h : page.Holds recs) (hslot : slot ≤ recs.length) :
    slotPos slot + 4 ≤ page.freeSpaceEnd := by
  have hroom := h.room
  rw [slotPos_eq] at hroom ⊢
  omega

theorem slotCount_packed (h : page.Holds recs) : page.packed.slotCount = recs.length := by
  have hroom := slotPos_le_freeSpaceEnd h (Nat.zero_le _)
  rw [slotPos_eq] at hroom
  rw [← h.slotCount_eq]
  exact field_packed (by omega) (by omega)

theorem freeSpaceEnd_packed (h : page.Holds recs) :
    page.packed.freeSpaceEnd = page.freeSpaceEnd := by
  have hroom := slotPos_le_freeSpaceEnd h (Nat.zero_le _)
  rw [slotPos_eq] at hroom
  exact field_packed (by omega) (by omega)

theorem slotLength_packed (h : page.Holds recs) (hslot : slot < recs.length) :
    page.packed.slotLength slot = page.slotLength slot := by
  have hroom := slotPos_le_freeSpaceEnd h hslot.le
  rw [slotPos_eq] at hroom
  refine field_packed ?_ ?_ <;> rw [slotPos_eq] <;> omega

/-- `slotted_page_decompress` undoes `slotted_page_compress`. -/
theorem decompress_packed (h : page.Holds recs) (hpays : page.Pays) (hfifteen : page.NoFifteen)
    (scratch : Vector UInt8 4096) :
    slottedPageDecompress scratch page.packed = (1, page) := by
  have hend := h.freeSpaceEnd_le
  have hsize := hpays.1
  have hshort := hpays.2.2
  have hlen := h.length_dataArea
  have hcomp := h.compress_eq hpays
  have hroom := slotPos_le_freeSpaceEnd h (Nat.zero_le _)
  have hscratch : scratch.toList.length = 4096 := by simp
  rw [slotPos_eq] at hroom
  rw [h.dataSize_eq, pageSizeSe, compressionThreshold] at hsize
  rw [h.dataSize_eq, pageSizeSe, sizeSub] at hshort
  rw [h.dataSize_eq, pageSizeSe] at hlen
  rw [pageSizeSe] at hend
  have hsame : page.packed.dataSize = page.dataSize := by
    rw [SlottedPage.dataSize, freeSpaceEnd_packed h, SlottedPage.dataSize]
  -- The record area of the packed page: the compressed image and what it leaves of the plain one.
  have harea : page.packed.dataArea =
      leBytes 4 page.dataArea.length ++ tokensFrom page.dataArea 0 ++
        page.dataArea.drop (compressLz4 page.dataArea 4096).length := by
    have hload : page.packed.dataArea =
        (page.store page.freeSpaceEnd (compressLz4 page.dataArea pageSizeSe)).load
          page.freeSpaceEnd page.dataSize := by
      rw [SlottedPage.dataArea, freeSpaceEnd_packed h, hsame, SlottedPage.packed, setFlags,
        load_setField_of_disjoint (by omega)]
    rw [hload, ← hcomp]
    refine Buffer.read_write_head ?_ ?_
    · rw [page.size, h.dataSize_eq]
      show page.freeSpaceEnd + (4096 - page.freeSpaceEnd) ≤ 5120
      omega
    · rw [h.dataSize_eq, pageSizeSe]
      omega
  have hread : decompressLz4 page.packed.dataArea scratch.toList =
      (page.dataArea.length, filled page.dataArea scratch.toList page.dataArea.length) := by
    rw [harea]
    refine decompressLz4_append (by omega) (by omega) ?_
    exact fun p hp hlen15 => absurd hlen15 (hfifteen p hp)
  have htake : (filled page.dataArea scratch.toList page.dataArea.length).take
      page.dataArea.length = page.dataArea := by
    rw [filled, List.take_length, List.take_left]
  rw [slottedPageDecompress, isCompressed_packed h, hread]
  dsimp only
  rw [if_neg (by decide), if_pos (by omega), htake, flags_packed h, freeSpaceEnd_packed h]
  refine Prod.ext rfl ?_
  -- The record area and the flags are written back as they were.
  have hbytes : Buffer.write (Buffer.write page.bytes page.freeSpaceEnd page.dataArea) 10
      (leBytes 2 pageFlagLeaf) = page.bytes := by
    have hflags : leBytes 2 pageFlagLeaf = Buffer.read page.bytes 10 2 := by
      have hread2 : (Buffer.read page.bytes 10 2).length = 2 := by
        refine Buffer.length_read ?_
        rw [page.size]
        decide
      have hfield : leNat (Buffer.read page.bytes 10 2) = pageFlagLeaf := h.flags_eq
      have hround := leBytes_leNat (Buffer.read page.bytes 10 2)
      rwa [hread2, hfield] at hround
    have hback : Buffer.write page.bytes page.freeSpaceEnd page.dataArea = page.bytes := by
      refine Buffer.write_read ?_
      rw [page.size, h.dataSize_eq]
      show page.freeSpaceEnd + (4096 - page.freeSpaceEnd) ≤ 5120
      omega
    rw [hback, hflags, Buffer.write_read]
    rw [page.size]
    decide
  have hgoal : Buffer.write (Buffer.write (Buffer.write (Buffer.write page.bytes
      page.freeSpaceEnd (compressLz4 page.dataArea pageSizeSe)) 10
        (leBytes 2 (page.flags ||| pageFlagCompressed))) page.freeSpaceEnd page.dataArea) 10
          (leBytes 2 pageFlagLeaf) = page.bytes := by
    have hshorter : (compressLz4 page.dataArea pageSizeSe).length ≤ page.dataArea.length := by
      show (compressLz4 page.dataArea 4096).length ≤ _
      omega
    have hflagbytes : (leBytes 2 (page.flags ||| pageFlagCompressed)).length ≤
        (leBytes 2 pageFlagLeaf).length := by
      rw [length_leBytes, length_leBytes]
    have hapart : 10 + (leBytes 2 (page.flags ||| pageFlagCompressed)).length ≤
        page.freeSpaceEnd ∨ page.freeSpaceEnd + page.dataArea.length ≤ 10 := by
      rw [length_leBytes]
      omega
    rw [Buffer.write_comm hapart, Buffer.write_write hshorter, Buffer.write_write hflagbytes,
      hbytes]
  exact SlottedPage.ext hgoal

theorem compress_packed (h : page.Holds recs) :
    slottedPageCompress page.packed = (0, page.packed) := by
  rw [slottedPageCompress, isCompressed_packed h, if_pos rfl]

/-- Deleting a record writes to the slot directory only. -/
theorem packed_setSlotLength (h : page.Holds recs) (hslot : slot < recs.length) :
    (page.setSlotLength slot v).packed = page.packed.setSlotLength slot v := by
  have hroom := slotPos_le_freeSpaceEnd h hslot.le
  rw [slotPos_eq] at hroom
  have hend : (page.setSlotLength slot v).freeSpaceEnd = page.freeSpaceEnd :=
    field_setField_of_disjoint (by rw [slotPos_eq]; omega)
  have hflags : (page.setSlotLength slot v).flags = page.flags :=
    field_setField_of_disjoint (by rw [slotPos_eq]; omega)
  have harea : (page.setSlotLength slot v).dataArea = page.dataArea := by
    rw [dataArea, dataSize, hend]
    exact load_setField_of_disjoint (by rw [slotPos_eq]; omega)
  rw [packed, packed, hend, hflags, harea]
  refine SlottedPage.ext ?_
  have hbelow : slotPos slot + 2 + (leBytes 2 v).length ≤ page.freeSpaceEnd ∨
      page.freeSpaceEnd + (compressLz4 page.dataArea pageSizeSe).length ≤ slotPos slot + 2 := by
    rw [length_leBytes, slotPos_eq]
    omega
  have habove : slotPos slot + 2 + (leBytes 2 v).length ≤ 10 ∨
      10 + (leBytes 2 (page.flags ||| pageFlagCompressed)).length ≤ slotPos slot + 2 := by
    rw [length_leBytes, length_leBytes, slotPos_eq]
    omega
  show Buffer.write (Buffer.write (Buffer.write page.bytes (slotPos slot + 2) (leBytes 2 v))
      page.freeSpaceEnd (compressLz4 page.dataArea pageSizeSe)) 10
        (leBytes 2 (page.flags ||| pageFlagCompressed)) =
    Buffer.write (Buffer.write (Buffer.write page.bytes page.freeSpaceEnd
      (compressLz4 page.dataArea pageSizeSe)) 10
        (leBytes 2 (page.flags ||| pageFlagCompressed))) (slotPos slot + 2) (leBytes 2 v)
  rw [Buffer.write_comm hbelow, Buffer.write_comm habove]

theorem pays_setSlotLength (h : page.Holds recs) (hslot : slot < recs.length) :
    (page.setSlotLength slot v).dataArea = page.dataArea ∧
      ((page.setSlotLength slot v).Pays ↔ page.Pays) := by
  have hroom := slotPos_le_freeSpaceEnd h hslot.le
  rw [slotPos_eq] at hroom
  have hend : (page.setSlotLength slot v).freeSpaceEnd = page.freeSpaceEnd :=
    field_setField_of_disjoint (by rw [slotPos_eq]; omega)
  have hsize : (page.setSlotLength slot v).dataSize = page.dataSize := by
    rw [dataSize, dataSize, hend]
  have harea : (page.setSlotLength slot v).dataArea = page.dataArea := by
    rw [dataArea, hsize, hend]
    exact load_setField_of_disjoint (by rw [slotPos_eq]; omega)
  exact ⟨harea, by rw [Pays, Pays, hsize, harea]⟩

/-- Whether there is a record in the slot is still seen. -/
theorem dead_packed (h : page.Holds recs) (hslot : recs.at slot = none) :
    slot ≥ page.packed.slotCount ∨ page.packed.slotLength slot = 0 := by
  rw [slotCount_packed h]
  rcases Nat.lt_or_ge slot recs.length with hlt | hge
  · rw [slotLength_packed h hlt, h.slotLength_eq slot hlt]
    rw [Records.at, List.getElem?_eq_getElem hlt, Option.join_some] at hslot
    rw [hslot]
    exact Or.inr rfl
  · exact Or.inl hge

end Packed

/-! ## Making room -/

section Room

variable {page : SlottedPage} {recs : Records} {slot : Nat} {data : List UInt8}

theorem SlottedPage.Holds.freeSpaceEnd_compact (h : page.Holds recs) (hne : recs ≠ []) :
    (slottedPageCompact page).freeSpaceEnd + recs.used = pageSizeSe := by
  have hcount : page.slotCount ≠ 0 := by
    rw [h.slotCount_eq]
    simpa using hne
  have hc := (Compaction.Moved.start page recs).loop h le_rfl
  rw [← h.slotCount_eq] at hc
  rw [slottedPageCompact, if_neg hcount]
  dsimp only
  generalize Compaction.loop page.slotCount _ = c at hc
  have hwrite := hc.writePos_eq
  rw [List.drop_zero] at hwrite
  rw [setFreeSpaceEnd, freeSpaceEnd, field_setField (by decide), hwrite]
  rw [pageSizeSe] at hwrite
  omega

/-- Compaction frees everything that live records do not use. -/
theorem SlottedPage.Holds.makeRoom_fits {needed : Nat} (h : page.Holds recs) (hne : recs ≠ [])
    (hfits : slotPos (recs.length + 1) + recs.used + needed ≤ pageSizeSe) :
    (makeRoom page needed).1 = true := by
  rw [makeRoom]
  split
  · have hend := h.freeSpaceEnd_compact hne
    have hfree := h.compact.freeSpace_eq
    simp only [Bool.not_eq_true', decide_eq_false_iff_not, Nat.not_lt]
    omega
  · rfl

/-- The bytes of the live records, from the slot directory. -/
def SlottedPage.liveBytes (page : SlottedPage) : Nat :=
  ((List.range page.slotCount).map page.slotLength).sum

theorem SlottedPage.Holds.liveBytes_eq (h : page.Holds recs) : page.liveBytes = recs.used := by
  have hlengths : (List.range page.slotCount).map page.slotLength = recs.map recordLength := by
    refine List.ext_getElem ?_ ?_
    · rw [List.length_map, List.length_map, List.length_range, h.slotCount_eq]
    · intro i hi hi'
      rw [List.length_map] at hi'
      rw [List.getElem_map, List.getElem_map, List.getElem_range, h.slotLength_eq i hi']
  rw [SlottedPage.liveBytes, hlengths, Records.used]

/-- The slot has a record. -/
def SlottedPage.Live (page : SlottedPage) (slot : Nat) : Prop :=
  slot < page.slotCount ∧ page.slotLength slot ≠ 0

instance (page : SlottedPage) (slot : Nat) : Decidable (page.Live slot) :=
  inferInstanceAs (Decidable (_ ∧ _))

theorem SlottedPage.Holds.live_iff (h : page.Holds recs) :
    page.Live slot ↔ ∃ old, recs.at slot = some old := by
  constructor
  · rintro ⟨hlt, hlen⟩
    rw [h.slotCount_eq] at hlt
    obtain ⟨old, hold, -⟩ := h.at_of_slotLength hlt hlen
    exact ⟨old, hold⟩
  · rintro ⟨old, hold⟩
    refine ⟨h.slotCount_eq ▸ lt_of_at hold, ?_⟩
    rw [h.slotLength_live hold]
    exact fun hzero => h.ne_nil slot old hold (List.length_eq_zero_iff.mp hzero)

/-- An update of a slot without a record fails and changes nothing. -/
theorem update_dead (hdead : ¬ page.Live slot) :
    slottedPageUpdate page slot data = (false, page) := by
  rw [slottedPageUpdate]
  split
  · rfl
  next hslot =>
    split
    · rfl
    next hlen => exact absurd ⟨Nat.lt_of_not_le hslot, hlen⟩ hdead

/-- The new record is not longer than the old one, or there is room for it besides the others. -/
def SlottedPage.Outgrows (page : SlottedPage) (slot : Nat) (data : List UInt8) : Prop :=
  data.length > page.slotLength slot ∧
    slotPos (page.slotCount + 1) + (page.liveBytes - page.slotLength slot) + data.length >
      pageSizeSe

instance (page : SlottedPage) (slot : Nat) (data : List UInt8) :
    Decidable (page.Outgrows slot data) :=
  inferInstanceAs (Decidable (_ ∧ _))

theorem SlottedPage.Holds.update_ok {old : List UInt8} (h : page.Holds recs)
    (hold : recs.at slot = some old) (hfits : ¬ page.Outgrows slot data) :
    (slottedPageUpdate page slot data).1 = true := by
  have hlt := lt_of_at hold
  obtain ⟨hslot, hlen⟩ := h.live_iff.mpr ⟨old, hold⟩
  rw [slottedPageUpdate, if_neg (by omega), if_neg hlen]
  split
  · rfl
  next hlong =>
    have hdelete := h.delete slot
    generalize slottedPageDelete page slot = deleted at hdelete
    obtain ⟨ok, page1⟩ := deleted
    cases ok with
    | false =>
        rw [hold] at hdelete
        cases hdelete.2
    | true =>
        have hset := Records.used_set hlt none
        have hget := (List.getElem?_eq_some_iff.mp (Records.at_eq_some.mp hold)).2
        have hbytes := h.slotLength_live hold
        rw [hget, recordLength_some] at hset
        rw [Outgrows, h.liveBytes_eq, h.slotCount_eq, hbytes] at hfits
        rw [hbytes] at hlong
        have hzero : recordLength none = 0 := rfl
        have hroom : (makeRoom page1 data.length).1 = true := by
          refine hdelete.2.2.makeRoom_fits ?_ ?_
          · intro hnil
            rw [List.set_eq_nil_iff] at hnil
            rw [hnil] at hlt
            cases hlt
          · rw [List.length_set]
            omega
        dsimp only
        rw [hroom]
        rfl

end Room

/-! ## Runs with compression -/

inductive PageAction
  | op (op : PageOp)
  | get (slot : Nat)
  | compress
  | decompress (scratch : Vector UInt8 4096)

/-- A failed update leaves what was stored before it as the record that should be there. -/
def PageRun.act (s : PageRun) : PageAction → PageRun
  | .op (.update slot data) =>
      match slottedPageUpdate s.page slot data with
      | (false, page) => { s with page := page }
      | (true, page) => { page := page, stored := Function.update s.stored slot (some data) }
  | .op op => (s.step op).getD s
  | .get _ => s
  | .compress => { s with page := (slottedPageCompress s.page).2 }
  | .decompress scratch => { s with page := (slottedPageDecompress scratch s.page).2 }

/-- Every record is there once the page is decompressed. -/
def PageRun.Intact (s : PageRun) : Prop :=
  ∀ scratch slot, slottedPageGet (slottedPageDecompress scratch s.page).2 slot = s.stored slot

/-- What a `get` of the run returns is what was stored, and no record is lost or altered. -/
def PageRun.Transparent (s : PageRun) : List PageAction → Prop
  | [] => s.Intact
  | action :: actions =>
      s.Intact ∧ (∀ slot data, action = .get slot → slottedPageGet s.page slot = some data →
        s.stored slot = some data) ∧ (s.act action).Transparent actions

/-- On a compressed page an action does not reach the record area, compressing it takes no match
of length 15, and an update stores something for which there is room. -/
def SlottedPage.Allows (page : SlottedPage) : PageAction → Prop
  | .op (.insert data) =>
      slottedPageIsCompressed page = true → data = [] ∨
        data.length + slotEntrySize ≤ slottedPageFreeSpace page ∧ freeSlot page ≥ maxSlotCount
  | .op (.delete _) => True
  | .op (.update slot data) =>
      page.Live slot →
        slottedPageIsCompressed page = false ∧ data ≠ [] ∧ ¬ page.Outgrows slot data
  | .op .compact => slottedPageIsCompressed page = false
  | .get slot => slottedPageIsCompressed page = true → ¬ page.Live slot
  | .compress => slottedPageIsCompressed page = false → page.Pays → page.NoFifteen
  | .decompress _ => True

def PageRun.Allowed (s : PageRun) : List PageAction → Prop
  | [] => True
  | action :: actions => s.page.Allows action ∧ (s.act action).Allowed actions

/-- The page is plain, or the packed image of a plain page that decompresses. -/
def PageRun.Keeps (s : PageRun) : Prop :=
  ∃ (page : SlottedPage) (recs : Records), page.Holds recs ∧
    (∀ slot, s.stored slot = recs.at slot) ∧
      (s.page = page ∨ s.page = page.packed ∧ page.Pays ∧ page.NoFifteen)

namespace PageRun

variable {s s' : PageRun} {slot : Nat} {data : List UInt8} {action : PageAction}
  {actions : List PageAction}

theorem Sound.keeps (h : s.Sound) : s.Keeps := by
  obtain ⟨recs, hpage, hstored⟩ := h
  exact ⟨s.page, recs, hpage, hstored, Or.inl rfl⟩

theorem Keeps.intact (h : s.Keeps) : s.Intact := by
  obtain ⟨page, recs, hpage, hstored, hplain | ⟨hpacked, hpays, hfifteen⟩⟩ := h
  · intro scratch slot
    rw [hplain, slottedPageDecompress, hpage.isCompressed, hstored slot]
    exact hpage.get_eq slot
  · intro scratch slot
    rw [hpacked, decompress_packed hpage hpays hfifteen, hstored slot]
    exact hpage.get_eq slot

theorem Keeps.get (h : s.Keeps) (hallows : s.page.Allows (.get slot))
    (hget : slottedPageGet s.page slot = some data) : s.stored slot = some data := by
  obtain ⟨page, recs, hpage, hstored, hplain | ⟨hpacked, -, -⟩⟩ := h
  · rw [hplain, hpage.get_eq slot] at hget
    rw [hstored slot, hget]
  · rw [hpacked] at hallows hget
    have hdead := hallows (isCompressed_packed hpage)
    rw [slottedPageGet] at hget
    split at hget
    · cases hget
    next hslot =>
      split at hget
      · cases hget
      next hlen => exact absurd ⟨Nat.lt_of_not_le hslot, hlen⟩ hdead

theorem act_update_dead (hdead : ¬ s.page.Live slot) : s.act (.op (.update slot data)) = s := by
  rw [act, update_dead hdead]

theorem Sound.act_op (h : s.Sound) {op : PageOp} (hallows : s.page.Allows (.op op)) :
    (s.act (.op op)).Sound := by
  have hstep : ∀ {s'}, s.step op = some s' → ((s.step op).getD s).Sound := by
    intro s' hs'
    rw [hs', Option.getD_some]
    exact h.step hs'
  cases op with
  | insert data =>
      have hsome : ∃ s', s.step (.insert data) = some s' := by
        rw [PageRun.step]
        split
        · exact ⟨_, rfl⟩
        · exact ⟨_, rfl⟩
      exact hstep hsome.choose_spec
  | delete slot =>
      have hsome : ∃ s', s.step (.delete slot) = some s' := by
        rw [PageRun.step]
        split
        · exact ⟨_, rfl⟩
        · exact ⟨_, rfl⟩
      exact hstep hsome.choose_spec
  | compact => exact hstep rfl
  | update slot data =>
      by_cases hlive : s.page.Live slot
      · obtain ⟨recs, hpage, hstored⟩ := h
        obtain ⟨old, hold⟩ := hpage.live_iff.mp hlive
        obtain ⟨-, hne, hfits⟩ := hallows hlive
        have hok := hpage.update_ok hold hfits
        have hact : s.step (.update slot data) = some (s.act (.op (.update slot data))) := by
          rw [PageRun.step, if_neg hne, PageRun.act]
          generalize slottedPageUpdate s.page slot data = r at hok
          obtain ⟨ok, page⟩ := r
          cases ok with
          | true => rfl
          | false => cases hok
        exact Sound.step ⟨recs, hpage, hstored⟩ hact
      · rw [act_update_dead hlive]
        exact h

/-- What a compressed page allows leaves it packed. -/
theorem act_op_packed {page : SlottedPage} {recs : Records} {op : PageOp} (hpage : page.Holds recs)
    (hstored : ∀ slot, s.stored slot = recs.at slot) (hpacked : s.page = page.packed)
    (hpays : page.Pays) (hfifteen : page.NoFifteen) (hallows : s.page.Allows (.op op)) :
    (s.act (.op op)).Keeps := by
  have hcompressed : slottedPageIsCompressed s.page = true := by
    rw [hpacked, isCompressed_packed hpage]
  have hkeeps : s.Keeps := ⟨page, recs, hpage, hstored, Or.inr ⟨hpacked, hpays, hfifteen⟩⟩
  cases op with
  | insert data =>
      have hinsert : slottedPageInsert s.page data = (none, s.page) := by
        rcases hallows hcompressed with rfl | ⟨hroom, hfull⟩
        · rfl
        · have hmake : makeRoom s.page (data.length + slotEntrySize) = (true, s.page) := by
            rw [makeRoom, if_neg (by omega)]
          rw [slottedPageInsert, hmake]
          dsimp only
          rw [Bool.not_true, if_neg Bool.false_ne_true, if_pos hfull, ite_self]
      have hact : s.act (.op (.insert data)) = s := by
        show (s.step (.insert data)).getD s = s
        rw [step, hinsert, Option.getD_some]
      rw [hact]
      exact hkeeps
  | delete slot =>
      cases hslot : recs.at slot with
      | none =>
          have hfail : slottedPageDelete s.page slot = (false, s.page) := by
            rw [hpacked, slottedPageDelete]
            rcases dead_packed hpage hslot with hge | hzero
            · rw [if_pos hge]
            · rw [if_pos hzero, ite_self]
          have hact : s.act (.op (.delete slot)) = s := by
            show (s.step (.delete slot)).getD s = s
            rw [step, hfail, Option.getD_some]
          rw [hact]
          exact hkeeps
      | some old =>
          have hlt := SlottedPage.Holds.lt_of_at hslot
          obtain ⟨-, hlen⟩ := hpage.live_iff.mpr ⟨old, hslot⟩
          have hok : slottedPageDelete s.page slot =
              (true, (page.setSlotLength slot 0).packed) := by
            rw [hpacked, slottedPageDelete, slotCount_packed hpage, slotLength_packed hpage hlt,
              if_neg (by omega), if_neg hlen, packed_setSlotLength hpage hlt]
          have hact : s.act (.op (.delete slot)) =
              { page := (page.setSlotLength slot 0).packed
                stored := Function.update s.stored slot none } := by
            show (s.step (.delete slot)).getD s = _
            rw [step, hok, Option.getD_some]
          obtain ⟨harea, hpays'⟩ := pays_setSlotLength (v := 0) hpage hlt
          rw [hact]
          refine ⟨_, _, hpage.setSlotLength_zero hslot, fun j => ?_,
            Or.inr ⟨rfl, hpays'.mpr hpays, ?_⟩⟩
          · show Function.update s.stored slot none j = _
            rw [Function.update_apply, hstored j, Records.at_set hlt]
          · rw [NoFifteen, harea]
            exact hfifteen
  | update slot data =>
      have hdead : ¬ s.page.Live slot := by
        intro hlive
        have hplain := (hallows hlive).1
        rw [hcompressed] at hplain
        cases hplain
      rw [act_update_dead hdead]
      exact hkeeps
  | compact =>
      have hplain : slottedPageIsCompressed s.page = false := hallows
      rw [hcompressed] at hplain
      cases hplain

theorem Keeps.act (h : s.Keeps) (hallows : s.page.Allows action) : (s.act action).Keeps := by
  obtain ⟨page, recs, hpage, hstored, hplain | ⟨hpacked, hpays, hfifteen⟩⟩ := h
  · subst hplain
    have hsound : s.Sound := ⟨recs, hpage, hstored⟩
    cases action with
    | op op => exact (hsound.act_op hallows).keeps
    | get slot => exact hsound.keeps
    | compress =>
        by_cases hpays : s.page.Pays
        · have hpack : slottedPageCompress s.page = (1, s.page.packed) := by
            rw [slottedPageCompress, hpage.isCompressed, if_pos hpays]
            rfl
          refine ⟨s.page, recs, hpage, hstored, Or.inr ⟨?_, hpays, ?_⟩⟩
          · rw [PageRun.act, hpack]
          · exact hallows hpage.isCompressed hpays
        · have hpack : slottedPageCompress s.page = (0, s.page) := by
            rw [slottedPageCompress, hpage.isCompressed, if_neg hpays]
            rfl
          rw [PageRun.act, hpack]
          exact hsound.keeps
    | decompress scratch =>
        rw [PageRun.act, slottedPageDecompress, hpage.isCompressed]
        exact hsound.keeps
  · cases action with
    | op op => exact act_op_packed hpage hstored hpacked hpays hfifteen hallows
    | get slot => exact ⟨page, recs, hpage, hstored, Or.inr ⟨hpacked, hpays, hfifteen⟩⟩
    | compress =>
        refine ⟨page, recs, hpage, hstored, Or.inr ⟨?_, hpays, hfifteen⟩⟩
        rw [PageRun.act, hpacked, compress_packed hpage]
    | decompress scratch =>
        refine ⟨page, recs, hpage, hstored, Or.inl ?_⟩
        rw [PageRun.act, hpacked, decompress_packed hpage hpays hfifteen]

theorem Keeps.transparent (h : s.Keeps) (hallowed : s.Allowed actions) :
    s.Transparent actions := by
  induction actions generalizing s with
  | nil => exact h.intact
  | cons action actions ih =>
      obtain ⟨hallows, hrest⟩ := hallowed
      refine ⟨h.intact, fun slot data heq hget => ?_, ih (h.act hallows) hrest⟩
      subst heq
      exact h.get hallows hget

end PageRun

theorem slottedPage_transparent (pageId : UInt32) (actions : List PageAction)
    (hallowed : (PageRun.start pageId).Allowed actions) :
    (PageRun.start pageId).Transparent actions :=
  (PageRun.Sound.start pageId).keeps.transparent hallowed

theorem slottedPage_transparent_small :
    (PageRun.start 1).Transparent [.op (.insert [1, 2, 3]), .compress, .get 0, .op (.delete 0)] :=
  slottedPage_transparent 1 _
    ⟨fun h => absurd h (by decide +kernel), fun _ hpays => absurd hpays.1 (by decide +kernel),
      fun h => absurd h (by decide +kernel), trivial, trivial⟩

@[irreducible]
def zeroRecord : List UInt8 := List.replicate 512 0

theorem length_zeroRecord : zeroRecord.length = 512 := by
  rw [zeroRecord, List.length_replicate]

/-- A page with one record of 512 zero bytes. -/
@[irreducible]
def zeroPage : SlottedPage := (slottedPageInsert (slottedPageInit 1) zeroRecord).2

/-- The page as it is evaluated: its slot, and where its record lies. -/
theorem zeroPage_state :
    (slottedPageInsert (slottedPageInit 1) zeroRecord).1 = some 0 ∧ zeroPage.slotCount = 1 ∧
      zeroPage.freeSpaceEnd = 3584 ∧ zeroPage.slotOffset 0 = 3584 ∧
        zeroPage.dataArea = zeroRecord := by
  decide +kernel

theorem insert_zeroRecord :
    slottedPageInsert (slottedPageInit 1) zeroRecord = (some 0, zeroPage) := by
  rw [zeroPage, ← zeroPage_state.1]

theorem zeroPage_holds : zeroPage.Holds [some zeroRecord] := by
  have hinsert := (SlottedPage.Holds.init 1).insert zeroRecord
  have hcount : zeroPage.slotCount = 1 := zeroPage_state.2.1
  rw [insert_zeroRecord] at hinsert
  obtain ⟨-, recs, hpage, hat⟩ := hinsert
  have hlen : recs.length = 1 := by rw [← hpage.slotCount_eq, hcount]
  obtain ⟨r, rfl⟩ := List.length_eq_one_iff.mp hlen
  have hr := hat 0
  rw [if_pos rfl, Records.at_eq_some] at hr
  have hrecord : r = some zeroRecord := Option.some.inj hr
  rwa [hrecord] at hpage

theorem zeroPage_layout : zeroPage.freeSpaceEnd = 3584 ∧ zeroPage.slotOffset 0 = 3584 ∧
    zeroPage.dataArea = zeroRecord :=
  zeroPage_state.2.2

theorem compress_zeroRecord : compressLz4 zeroRecord pageSizeSe =
    leBytes 4 512 ++ tokensFrom zeroRecord 0 := by
  rw [compressLz4_eq, length_zeroRecord]
  · intro hnil
    have hlen := length_zeroRecord
    rw [hnil] at hlen
    cases hlen
  · rw [length_zeroRecord, pageSizeSe]
    omega

theorem zeroPage_pays : zeroPage.Pays := by
  obtain ⟨hend, -, harea⟩ := zeroPage_layout
  have hsize : zeroPage.dataSize = 512 := by rw [zeroPage_holds.dataSize_eq, hend, pageSizeSe]
  have htokens : 4 * (tokensFrom zeroRecord 0).length ≤ 3 * (512 - 0) + 24 + 5 * (4 - 0) := by
    rw [zeroRecord]
    exact length_tokensFrom_replicate (Nat.zero_le 512)
  have hlen : (compressLz4 zeroPage.dataArea pageSizeSe).length =
      4 + (tokensFrom zeroRecord 0).length := by
    rw [harea, compress_zeroRecord, List.length_append, length_leBytes]
  rw [Pays, hsize, hlen]
  refine ⟨le_refl 512, by omega, ?_⟩
  show 4 + (tokensFrom zeroRecord 0).length < 448
  omega

/-- The slot still says where the plain record was, and there the size of the original and the
tokens are now. -/
theorem slottedPage_get_garbles :
    ¬ (PageRun.start 1).Transparent [.op (.insert zeroRecord), .compress, .get 0] := by
  intro htransparent
  obtain ⟨-, -, -, -, -, hget, -⟩ := htransparent
  obtain ⟨hend, hoffset, harea⟩ := zeroPage_layout
  have hpage := zeroPage_holds
  have hinserted : (PageRun.start 1).act (.op (.insert zeroRecord)) =
      { page := zeroPage, stored := Function.update (fun _ => none) 0 (some zeroRecord) } := by
    show ((PageRun.start 1).step (.insert zeroRecord)).getD (PageRun.start 1) = _
    rw [PageRun.step, PageRun.start, insert_zeroRecord, Option.getD_some]
  have hcompressed : (slottedPageCompress zeroPage).2 = zeroPage.packed := by
    rw [slottedPageCompress, hpage.isCompressed, if_neg Bool.false_ne_true, if_pos zeroPage_pays]
  have hslotLength : zeroPage.packed.slotLength 0 = 512 := by
    rw [slotLength_packed hpage Nat.zero_lt_one, hpage.slotLength_live rfl, length_zeroRecord]
  have hslotOffset : zeroPage.packed.slotOffset 0 = 3584 := by
    rw [← hoffset]
    exact field_packed (by rw [slotPos_eq, hend]; omega) (Or.inr (by rw [slotPos_eq]; omega))
  -- What `get` returns starts with the size of the original.
  have hread : slottedPageGet zeroPage.packed 0 = some (leBytes 4 512 ++
      (tokensFrom zeroRecord 0 ++
        (zeroPage.load 3584 512).drop (compressLz4 zeroRecord pageSizeSe).length)) := by
    have hload : zeroPage.packed.load 3584 512 = compressLz4 zeroRecord pageSizeSe ++
        (zeroPage.load 3584 512).drop (compressLz4 zeroRecord pageSizeSe).length := by
      have hpays := zeroPage_pays.2.2
      rw [hpage.dataSize_eq, hend, harea] at hpays
      rw [SlottedPage.packed, hend, harea, setFlags, load_setField_of_disjoint (by omega)]
      refine Buffer.read_write_head ?_ ?_
      · rw [zeroPage.size]
        decide
      · have hle : (compressLz4 zeroRecord pageSizeSe).length < 448 := hpays
        omega
    rw [slottedPageGet, slotCount_packed hpage, if_neg (by decide), hslotLength, if_neg (by decide),
      hslotOffset, hload]
    nth_rewrite 1 [compress_zeroRecord]
    rw [List.append_assoc]
  rw [hinserted, PageRun.act] at hget
  rw [hcompressed] at hget
  have hsame := hget 0 _ rfl hread
  dsimp only at hsame
  rw [Function.update_self] at hsame
  have hsecond := congrArg (fun bs : List UInt8 => bs[1]?) (Option.some.inj hsame)
  have hzero : zeroRecord[1]? = some 0 := by
    rw [zeroRecord, List.getElem?_replicate, if_pos (by decide)]
  have htwo : (leBytes 4 512)[1]? = some 2 := by decide
  rw [hzero, List.getElem?_append_left (by rw [length_leBytes]; decide), htwo] at hsecond
  cases hsecond

end Storage
end InventixDB
