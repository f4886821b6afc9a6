import InventixDB.Lib.Buffer

/-!
# SlottedPage — records of any length on one page

A page is its bytes: a header, the slot directory behind it and the records, which grow down from
the end.  The fields of the header and of the slots are little-endian integers in these bytes, so
a record that ran into the directory would change it.
-/

namespace InventixDB
namespace Storage

open Lib Lib.ByteCodec

/-! ## Layout -/

/-- `PAGE_SIZE_SE` -/
def pageSizeSe : Nat := 4096

/-- `MAX_SLOT_COUNT` -/
def maxSlotCount : Nat := 256

/-- `sizeof(SlottedPageHeader)` -/
def slottedPageHeaderSize : Nat := 16

/-- `sizeof(SlotEntry)` -/
def slotEntrySize : Nat := 4

/-- `sizeof(SlottedPage)`: the header, `slots` and `data`. -/
def slottedPageSize : Nat :=
  slottedPageHeaderSize + maxSlotCount * slotEntrySize + (pageSizeSe - slottedPageHeaderSize)

@[ext]
structure SlottedPage where
  bytes : List UInt8
  size : bytes.length = slottedPageSize
  deriving DecidableEq

namespace SlottedPage

/-- `memcpy` into the page. -/
def store (page : SlottedPage) (pos : Nat) (data : List UInt8) : SlottedPage where
  bytes := Buffer.write page.bytes pos data
  size := by rw [Buffer.length_write, page.size]

/-- `memcpy` out of the page. -/
def load (page : SlottedPage) (pos len : Nat) : List UInt8 :=
  Buffer.read page.bytes pos len

def field (page : SlottedPage) (pos w : Nat) : Nat :=
  Buffer.readLE page.bytes pos w

def setField (page : SlottedPage) (pos w v : Nat) : SlottedPage :=
  page.store pos (leBytes w v)

/-! ## Header and slots -/

def slotCount (page : SlottedPage) : Nat := page.field 4 2

def freeSpaceEnd (page : SlottedPage) : Nat := page.field 8 2

def flags (page : SlottedPage) : Nat := page.field 10 2

/-- Where `slots[i]` starts. -/
def slotPos (i : Nat) : Nat := slottedPageHeaderSize + slotEntrySize * i

def slotOffset (page : SlottedPage) (i : Nat) : Nat := page.field (slotPos i) 2

def slotLength (page : SlottedPage) (i : Nat) : Nat := page.field (slotPos i + 2) 2

def setSlotCount (page : SlottedPage) (v : Nat) : SlottedPage := page.setField 4 2 v

def setFreeSpaceStart (page : SlottedPage) (v : Nat) : SlottedPage := page.setField 6 2 v

def setFreeSpaceEnd (page : SlottedPage) (v : Nat) : SlottedPage := page.setField 8 2 v

def setFlags (page : SlottedPage) (v : Nat) : SlottedPage := page.setField 10 2 v

def setSlotOffset (page : SlottedPage) (i v : Nat) : SlottedPage := page.setField (slotPos i) 2 v

def setSlotLength (page : SlottedPage) (i v : Nat) : SlottedPage :=
  page.setField (slotPos i + 2) 2 v

end SlottedPage

/-! ## Operations -/

/-- `PAGE_FLAG_LEAF` -/
def pageFlagLeaf : Nat := 0x0002

/-- A difference of two `size_t`. -/
def sizeSub (a b : Nat) : Nat := (2 ^ 64 + a - b) % 2 ^ 64

def slottedPageInit (pageId : UInt32) : SlottedPage :=
  let page : SlottedPage :=
    { bytes := List.replicate slottedPageSize 0
      size := List.length_replicate }
  ((((page.setField 0 4 pageId.toNat).setSlotCount 0).setFreeSpaceStart
    slottedPageHeaderSize).setFreeSpaceEnd pageSizeSe).setFlags pageFlagLeaf |>.setField 12 4 0

def slottedPageFreeSpace (page : SlottedPage) : Nat :=
  let slotDirSize := page.slotCount * slotEntrySize
  let headerSize := slottedPageHeaderSize + slotDirSize
  if page.freeSpaceEnd ≤ headerSize then 0
  else sizeSub (sizeSub page.freeSpaceEnd headerSize) slotEntrySize

def slottedPageGet (page : SlottedPage) (slot : Nat) : Option (List UInt8) :=
  if slot ≥ page.slotCount then none
  else if page.slotLength slot = 0 then none
  else some (page.load (page.slotOffset slot) (page.slotLength slot))

/-- The page under compaction, and the buffer its records are moved to. -/
structure Compaction where
  page : SlottedPage
  temp : List UInt8
  writePos : Nat

def Compaction.move (c : Compaction) (i : Nat) : Compaction :=
  let len := c.page.slotLength i
  if len > 0 then
    let writePos := (2 ^ 16 + c.writePos - len) % 2 ^ 16
    { page := c.page.setSlotOffset i writePos
      temp := Buffer.write c.temp writePos (c.page.load (c.page.slotOffset i) len)
      writePos := writePos }
  else c

/-- The slots below `i`, from the last to the first. -/
def Compaction.loop : Nat → Compaction → Compaction
  | 0, c => c
  | i + 1, c => Compaction.loop i (c.move i)

/-- What `temp` holds at the start is never read. -/
def slottedPageCompact (page : SlottedPage) : SlottedPage :=
  if page.slotCount = 0 then page
  else
    let c := Compaction.loop page.slotCount
      { page := page, temp := List.replicate pageSizeSe 0, writePos := pageSizeSe }
    (c.page.store c.writePos
      (Buffer.read c.temp c.writePos (pageSizeSe - c.writePos))).setFreeSpaceEnd c.writePos

/-- The space check of insert and update: whether `needed` bytes are free, and the page, compacted
if they were not at first. -/
def makeRoom (page : SlottedPage) (needed : Nat) : Bool × SlottedPage :=
  if slottedPageFreeSpace page < needed then
    let page := slottedPageCompact page
    (!decide (slottedPageFreeSpace page < needed), page)
  else (true, page)

/-- The first deleted slot, or a new one. -/
def freeSlot (page : SlottedPage) : Nat :=
  ((List.range page.slotCount).find? fun i => page.slotLength i = 0).getD page.slotCount

/-- Put a record in front of the others, and into a slot. -/
def placeRecord (page : SlottedPage) (slot : Nat) (data : List UInt8) : SlottedPage :=
  let recordOffset := sizeSub page.freeSpaceEnd data.length % 2 ^ 16
  ((page.store recordOffset data).setSlotOffset slot recordOffset).setSlotLength slot data.length

/-- The slot of the new record, or `none` for -1, and the page. -/
def slottedPageInsert (page : SlottedPage) (data : List UInt8) : Option Nat × SlottedPage :=
  if data.length = 0 then (none, page)
  else
    let (fits, page) := makeRoom page (data.length + slotEntrySize)
    if !fits then (none, page)
    else
      let slotIdx := freeSlot page
      if slotIdx ≥ maxSlotCount then (none, page)
      else
        let recordOffset := sizeSub page.freeSpaceEnd data.length % 2 ^ 16
        let placed := placeRecord page slotIdx data
        let counted :=
          if slotIdx ≥ placed.slotCount then
            (placed.setSlotCount (slotIdx + 1)).setFreeSpaceStart
              (slottedPageHeaderSize + (slotIdx + 1) * slotEntrySize)
          else placed
        (some slotIdx, counted.setFreeSpaceEnd recordOffset)

/-- Whether it returned 0, and the page. -/
def slottedPageDelete (page : SlottedPage) (slot : Nat) : Bool × SlottedPage :=
  if slot ≥ page.slotCount then (false, page)
  else if page.slotLength slot = 0 then (false, page)
  else (true, page.setSlotLength slot 0)

def slottedPageUpdate (page : SlottedPage) (slot : Nat) (data : List UInt8) :
    Bool × SlottedPage :=
  if slot ≥ page.slotCount then (false, page)
  else if page.slotLength slot = 0 then (false, page)
  else if data.length ≤ page.slotLength slot then
    (true, (page.store (page.slotOffset slot) data).setSlotLength slot data.length)
  else
    let page := (slottedPageDelete page slot).2
    let (fits, page) := makeRoom page data.length
    if !fits then (false, page)
    else
      let recordOffset := sizeSub page.freeSpaceEnd data.length % 2 ^ 16
      (true, (placeRecord page slot data).setFreeSpaceEnd recordOffset)

/-! ## Fields after a write -/

namespace SlottedPage

variable {page : SlottedPage} {pos p w w' v len i j : Nat} {data : List UInt8}

theorem field_store_of_disjoint (hd : p + w ≤ pos ∨ pos + data.length ≤ p) :
    (page.store pos data).field p w = page.field p w :=
  Buffer.readLE_write_of_disjoint hd

theorem field_setField_of_disjoint (hd : p + w ≤ pos ∨ pos + w' ≤ p) :
    (page.setField pos w' v).field p w = page.field p w :=
  Buffer.readLE_writeLE_of_disjoint hd

theorem field_setField (h : pos + w ≤ slottedPageSize) (hv : v < 256 ^ w) :
    (page.setField pos w v).field pos w = v := by
  have hread : (page.setField pos w v).field pos w = v % 256 ^ w :=
    Buffer.readLE_writeLE (by rwa [page.size])
  rw [hread, Nat.mod_eq_of_lt hv]

theorem load_store (h : pos + data.length ≤ slottedPageSize) :
    (page.store pos data).load pos data.length = data :=
  Buffer.read_write (by rwa [page.size])

theorem load_store_of_disjoint (hd : p + len ≤ pos ∨ pos + data.length ≤ p) :
    (page.store pos data).load p len = page.load p len :=
  Buffer.read_write_of_disjoint hd

theorem load_setField_of_disjoint (hd : p + len ≤ pos ∨ pos + w ≤ p) :
    (page.setField pos w v).load p len = page.load p len :=
  Buffer.read_writeLE_of_disjoint hd

end SlottedPage

end Storage
end InventixDB
