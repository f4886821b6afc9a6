import InventixDB.Storage.SlottedPage
import Mathlib.Algebra.BigOperators.Group.List.Basic
import Mathlib.Data.List.Range
import Mathlib.Logic.Function.Basic

/-!
# PageLayout — a slotted page is a map from slots to records

`Holds` is the layout of a page: live records sit between the free space and the end of the page
and do not meet, and what they use fits there, so that compaction has room for all of them.
Between the slot directory and the records there is always room for one more slot, which is what
`slotted_page_free_space` subtracts.
-/

namespace InventixDB
namespace Storage

open Lib Lib.ByteCodec SlottedPage

/-! ## Records -/

/-- The records of a page by slot; a deleted slot has none. -/
abbrev Records := List (Option (List UInt8))

/-- The record in slot `i`. -/
def Records.at (recs : Records) (i : Nat) : Option (List UInt8) := recs[i]?.join

def recordLength (r : Option (List UInt8)) : Nat := (r.getD []).length

@[simp]
theorem recordLength_some (data : List UInt8) : recordLength (some data) = data.length := rfl

/-- The bytes that live records take. -/
def Records.used (recs : Records) : Nat := (recs.map recordLength).sum

theorem Records.at_eq_some {recs : Records} {i : Nat} {data : List UInt8} :
    recs.at i = some data ↔ recs[i]? = some (some data) :=
  Option.join_eq_some_iff

theorem Records.at_set {recs : Records} {i : Nat} (hi : i < recs.length)
    (r : Option (List UInt8)) (j : Nat) :
    Records.at (recs.set i r) j = if j = i then r else recs.at j := by
  by_cases hj : j = i
  · subst hj
    rw [Records.at, List.getElem?_set_self hi, if_pos rfl, Option.join_some]
  · rw [Records.at, List.getElem?_set_ne (Ne.symm hj), if_neg hj, Records.at]

theorem Records.at_append (recs : Records) (r : Option (List UInt8)) (j : Nat) :
    Records.at (recs ++ [r]) j = if j = recs.length then r else recs.at j := by
  by_cases hj : j = recs.length
  · subst hj
    rw [Records.at, List.getElem?_concat_length, if_pos rfl, Option.join_some]
  · rw [Records.at, if_neg hj, Records.at]
    rcases Nat.lt_or_gt_of_ne hj with hlt | hgt
    · rw [List.getElem?_append_left hlt]
    · rw [List.getElem?_eq_none (by simp; omega), List.getElem?_eq_none (by omega)]

theorem Records.used_set {recs : Records} {i : Nat} (hi : i < recs.length)
    (r : Option (List UInt8)) :
    Records.used (recs.set i r) + recordLength recs[i] = recs.used + recordLength r := by
  induction recs generalizing i with
  | nil => cases hi
  | cons first recs ih =>
      cases i with
      | zero =>
          simp only [Records.used, List.set_cons_zero, List.map_cons, List.sum_cons,
            List.getElem_cons_zero]
          omega
      | succ i =>
          have hrest := ih (Nat.lt_of_succ_lt_succ hi)
          simp only [Records.used, List.set_cons_succ, List.map_cons, List.sum_cons,
            List.getElem_cons_succ] at hrest ⊢
          omega

theorem Records.used_append (recs : Records) (r : Option (List UInt8)) :
    Records.used (recs ++ [r]) = recs.used + recordLength r := by
  simp [Records.used]

theorem Records.used_drop {recs : Records} {k : Nat} (hk : k < recs.length) :
    Records.used (recs.drop k) = recordLength recs[k] + Records.used (recs.drop (k + 1)) := by
  rw [List.drop_eq_getElem_cons hk, Records.used, Records.used, List.map_cons, List.sum_cons]

/-! ## The layout -/

/-- The page has `recs` in its slots. -/
structure SlottedPage.Holds (page : SlottedPage) (recs : Records) : Prop where
  flags_eq : page.flags = pageFlagLeaf
  slotCount_eq : page.slotCount = recs.length
  count_le : recs.length ≤ maxSlotCount
  room : slotPos (recs.length + 1) ≤ page.freeSpaceEnd
  slotLength_eq : ∀ i (hi : i < recs.length), page.slotLength i = recordLength recs[i]
  ne_nil : ∀ i data, recs.at i = some data → data ≠ []
  offset_ge : ∀ i data, recs.at i = some data → page.freeSpaceEnd ≤ page.slotOffset i
  in_page : ∀ i data, recs.at i = some data → page.slotOffset i + data.length ≤ pageSizeSe
  load_eq : ∀ i data, recs.at i = some data → page.load (page.slotOffset i) data.length = data
  disjoint : ∀ i j data data', i ≠ j → recs.at i = some data → recs.at j = some data' →
    page.slotOffset i + data.length ≤ page.slotOffset j ∨
      page.slotOffset j + data'.length ≤ page.slotOffset i
  used_le : recs.used + page.freeSpaceEnd ≤ pageSizeSe

theorem slotPos_eq (i : Nat) : slotPos i = 16 + 4 * i := rfl

namespace SlottedPage.Holds

variable {page page' : SlottedPage} {recs recs' : Records} {i : Nat} {data : List UInt8}

theorem lt_of_at (hi : recs.at i = some data) : i < recs.length := by
  rw [Records.at_eq_some] at hi
  exact (List.getElem?_eq_some_iff.mp hi).1

theorem slotLength_live (h : page.Holds recs) (hi : recs.at i = some data) :
    page.slotLength i = data.length := by
  obtain ⟨hlt, hget⟩ := List.getElem?_eq_some_iff.mp (Records.at_eq_some.mp hi)
  rw [h.slotLength_eq i hlt, hget, recordLength, Option.getD_some]

/-- A slot of the directory is empty exactly when its length is 0. -/
theorem at_eq_none (h : page.Holds recs) (hi : i < recs.length) (hlen : page.slotLength i = 0) :
    recs[i] = none := by
  cases hr : recs[i] with
  | none => rfl
  | some data =>
      have hat : recs.at i = some data := by
        rw [Records.at_eq_some, List.getElem?_eq_getElem hi, hr]
      rw [h.slotLength_live hat] at hlen
      exact absurd (List.length_eq_zero_iff.mp hlen) (h.ne_nil i data hat)

theorem at_of_slotLength (h : page.Holds recs) (hi : i < recs.length)
    (hlen : page.slotLength i ≠ 0) :
    ∃ data, recs.at i = some data ∧ page.slotLength i = data.length := by
  cases hr : recs[i] with
  | none =>
      rw [h.slotLength_eq i hi, hr] at hlen
      exact absurd rfl hlen
  | some data =>
      have hat : recs.at i = some data := by
        rw [Records.at_eq_some, List.getElem?_eq_getElem hi, hr]
      exact ⟨data, hat, h.slotLength_live hat⟩

/-- `slotted_page_get` reads the records. -/
theorem get_eq (h : page.Holds recs) (slot : Nat) : slottedPageGet page slot = recs.at slot := by
  rw [slottedPageGet, h.slotCount_eq]
  by_cases hslot : slot ≥ recs.length
  · rw [if_pos hslot, Records.at, List.getElem?_eq_none hslot, Option.join_none]
  · rw [if_neg hslot]
    by_cases hlen : page.slotLength slot = 0
    · rw [if_pos hlen, Records.at, List.getElem?_eq_getElem (by omega),
        h.at_eq_none (by omega) hlen, Option.join_some]
    · obtain ⟨data, hat, hdata⟩ := h.at_of_slotLength (by omega) hlen
      rw [if_neg hlen, hdata, h.load_eq slot data hat, hat]

theorem freeSpace_eq (h : page.Holds recs) :
    slottedPageFreeSpace page = page.freeSpaceEnd - slotPos (recs.length + 1) := by
  have hroom := h.room
  have hused := h.used_le
  rw [slotPos_eq] at hroom ⊢
  simp only [slottedPageFreeSpace, h.slotCount_eq, slottedPageHeaderSize, slotEntrySize, sizeSub,
    pageSizeSe] at hused ⊢
  rw [if_neg (by omega)]
  omega

/-- A new record in front of the others keeps the layout. -/
theorem place (h : page.Holds recs) (hat : ∀ j, recs'.at j = if j = i then some data else recs.at j)
    (hflags : page'.flags = page.flags)
    (hcount : page'.slotCount = recs'.length) (hmax : recs'.length ≤ maxSlotCount)
    (hend : page'.freeSpaceEnd + data.length = page.freeSpaceEnd)
    (hroom : slotPos (recs'.length + 1) ≤ page'.freeSpaceEnd)
    (hlength : ∀ j (hj : j < recs'.length), page'.slotLength j = recordLength recs'[j])
    (hoffset : page'.slotOffset i = page'.freeSpaceEnd)
    (hother : ∀ j d, j ≠ i → recs.at j = some d → page'.slotOffset j = page.slotOffset j)
    (hload : page'.load page'.freeSpaceEnd data.length = data)
    (hkeep : ∀ pos len, page.freeSpaceEnd ≤ pos → page'.load pos len = page.load pos len)
    (hne : data ≠ []) (hused : recs'.used ≤ recs.used + data.length) :
    page'.Holds recs' where
  flags_eq := hflags.trans h.flags_eq
  slotCount_eq := hcount
  count_le := hmax
  room := hroom
  slotLength_eq := hlength
  ne_nil := by
    intro j d hj
    rw [hat j] at hj
    split at hj
    · cases hj
      exact hne
    · exact h.ne_nil j d hj
  offset_ge := by
    intro j d hj
    rw [hat j] at hj
    split at hj
    next heq => rw [heq, hoffset]
    next hji =>
      have hge := h.offset_ge j d hj
      rw [hother j d hji hj]
      omega
  in_page := by
    intro j d hj
    rw [hat j] at hj
    split at hj
    next heq =>
      have hle := h.used_le
      cases hj
      rw [heq, hoffset]
      omega
    next hji =>
      rw [hother j d hji hj]
      exact h.in_page j d hj
  load_eq := by
    intro j d hj
    rw [hat j] at hj
    split at hj
    next heq =>
      cases hj
      rw [heq, hoffset, hload]
    next hji =>
      rw [hother j d hji hj, hkeep _ _ (h.offset_ge j d hj)]
      exact h.load_eq j d hj
  disjoint := by
    intro j k d d' hjk hj hk
    rw [hat j] at hj
    rw [hat k] at hk
    split at hj <;> split at hk
    next hji hki => exact absurd (hji.trans hki.symm) hjk
    next hji hki =>
      have hge := h.offset_ge k d' hk
      cases hj
      rw [hji, hoffset, hother k d' hki hk]
      omega
    next hji hki =>
      have hge := h.offset_ge j d hj
      cases hk
      rw [hki, hoffset, hother j d hji hj]
      omega
    next hji hki =>
      rw [hother j d hji hj, hother k d' hki hk]
      exact h.disjoint j k d d' hjk hj hk
  used_le := by
    have hle := h.used_le
    omega

end SlottedPage.Holds

/-! ## Placing a record -/

section Place

variable {page : SlottedPage} {slot off p w len : Nat} {data : List UInt8}

/-- Where `placeRecord` puts a record that fits. -/
theorem recordOffset_eq (hend : page.freeSpaceEnd ≤ pageSizeSe)
    (hfit : off + data.length = page.freeSpaceEnd) :
    sizeSub page.freeSpaceEnd data.length % 2 ^ 16 = off := by
  rw [pageSizeSe] at hend
  rw [sizeSub]
  omega

theorem field_placeRecord (hend : page.freeSpaceEnd ≤ pageSizeSe)
    (hfit : off + data.length = page.freeSpaceEnd) (hp : p + w ≤ off)
    (hd : p + w ≤ slotPos slot ∨ slotPos (slot + 1) ≤ p) :
    (placeRecord page slot data).field p w = page.field p w := by
  rw [slotPos_eq, slotPos_eq] at hd
  rw [placeRecord, recordOffset_eq hend hfit]
  simp only [setSlotLength, setSlotOffset, slotPos_eq]
  rw [field_setField_of_disjoint (by omega), field_setField_of_disjoint (by omega),
    field_store_of_disjoint (by omega)]

theorem slotOffset_placeRecord (hend : page.freeSpaceEnd ≤ pageSizeSe)
    (hfit : off + data.length = page.freeSpaceEnd) (hslot : slot < maxSlotCount) :
    (placeRecord page slot data).slotOffset slot = off := by
  rw [pageSizeSe] at hend
  rw [maxSlotCount] at hslot
  rw [placeRecord, recordOffset_eq hend hfit]
  simp only [setSlotLength, setSlotOffset, slotOffset, slotPos_eq]
  rw [field_setField_of_disjoint (by omega), field_setField]
  · show 16 + 4 * slot + 2 ≤ 5120
    omega
  · omega

theorem slotLength_placeRecord (hlen : data.length ≤ pageSizeSe) (hslot : slot < maxSlotCount) :
    (placeRecord page slot data).slotLength slot = data.length := by
  rw [pageSizeSe] at hlen
  rw [maxSlotCount] at hslot
  simp only [placeRecord, setSlotLength, slotLength, slotPos_eq]
  rw [field_setField]
  · show 16 + 4 * slot + 2 + 2 ≤ 5120
    omega
  · omega

theorem load_placeRecord (hend : page.freeSpaceEnd ≤ pageSizeSe)
    (hfit : off + data.length = page.freeSpaceEnd) (hslot : slotPos (slot + 1) ≤ off) :
    (placeRecord page slot data).load off data.length = data := by
  rw [pageSizeSe] at hend
  rw [slotPos_eq] at hslot
  rw [placeRecord, recordOffset_eq hend hfit]
  simp only [setSlotLength, setSlotOffset, slotPos_eq]
  rw [load_setField_of_disjoint (by omega), load_setField_of_disjoint (by omega), load_store]
  show off + data.length ≤ 5120
  omega

theorem load_placeRecord_of_le (hend : page.freeSpaceEnd ≤ pageSizeSe)
    (hfit : off + data.length = page.freeSpaceEnd) (hslot : slotPos (slot + 1) ≤ off)
    (hp : page.freeSpaceEnd ≤ p) :
    (placeRecord page slot data).load p len = page.load p len := by
  rw [slotPos_eq] at hslot
  rw [placeRecord, recordOffset_eq hend hfit]
  simp only [setSlotLength, setSlotOffset, slotPos_eq]
  rw [load_setField_of_disjoint (by omega), load_setField_of_disjoint (by omega),
    load_store_of_disjoint (by omega)]

end Place

/-! ## Compaction -/

section Compact

variable {page : SlottedPage} {recs : Records}

/-- The slots from `k` on are moved, the others are as they were. -/
structure Compaction.Moved (page : SlottedPage) (recs : Records) (k : Nat) (c : Compaction) :
    Prop where
  length_temp : c.temp.length = pageSizeSe
  writePos_eq : c.writePos + Records.used (recs.drop k) = pageSizeSe
  flags_eq : c.page.flags = page.flags
  slotCount_eq : c.page.slotCount = page.slotCount
  freeSpaceEnd_eq : c.page.freeSpaceEnd = page.freeSpaceEnd
  slotLength_eq : ∀ i < recs.length, c.page.slotLength i = page.slotLength i
  slotOffset_eq : ∀ i < k, c.page.slotOffset i = page.slotOffset i
  load_eq : ∀ pos len, slotPos recs.length ≤ pos → c.page.load pos len = page.load pos len
  offset_ge : ∀ i data, k ≤ i → recs.at i = some data → c.writePos ≤ c.page.slotOffset i
  in_page : ∀ i data, k ≤ i → recs.at i = some data →
    c.page.slotOffset i + data.length ≤ pageSizeSe
  read_eq : ∀ i data, k ≤ i → recs.at i = some data →
    Buffer.read c.temp (c.page.slotOffset i) data.length = data
  disjoint : ∀ i j data data', k ≤ i → k ≤ j → i ≠ j →
    recs.at i = some data → recs.at j = some data' →
      c.page.slotOffset i + data.length ≤ c.page.slotOffset j ∨
        c.page.slotOffset j + data'.length ≤ c.page.slotOffset i

theorem Records.used_drop_le (recs : Records) (k : Nat) :
    Records.used (recs.drop k) ≤ recs.used := by
  have hsplit : Records.used (recs.take k ++ recs.drop k) =
      Records.used (recs.take k) + Records.used (recs.drop k) := by
    simp [Records.used]
  rw [List.take_append_drop] at hsplit
  omega

theorem Compaction.Moved.move {c : Compaction} {k : Nat} (h : page.Holds recs)
    (hk : k < recs.length) (hc : c.Moved page recs (k + 1)) : (c.move k).Moved page recs k := by
  have hmax := h.count_le
  rw [maxSlotCount] at hmax
  have hused := Records.used_drop hk
  have hwrite := hc.writePos_eq
  by_cases hlen : page.slotLength k = 0
  · -- a deleted slot
    have hnone := h.at_eq_none hk hlen
    have hmove : c.move k = c := by
      rw [Compaction.move, hc.slotLength_eq k hk, hlen]
      exact if_neg (Nat.lt_irrefl 0)
    have hlive : ∀ i data, k ≤ i → recs.at i = some data → k + 1 ≤ i := by
      intro i data hi hat
      rcases Nat.lt_or_eq_of_le hi with hlt | heq
      · exact hlt
      · rw [Records.at_eq_some, ← heq, List.getElem?_eq_getElem hk, hnone] at hat
        cases hat
    have hzero : recordLength recs[k] = 0 := by
      rw [hnone]
      rfl
    rw [hmove]
    exact
      { length_temp := hc.length_temp
        writePos_eq := by omega
        flags_eq := hc.flags_eq
        slotCount_eq := hc.slotCount_eq
        freeSpaceEnd_eq := hc.freeSpaceEnd_eq
        slotLength_eq := hc.slotLength_eq
        slotOffset_eq := fun i hi => hc.slotOffset_eq i (by omega)
        load_eq := hc.load_eq
        offset_ge := fun i data hi hat => hc.offset_ge i data (hlive i data hi hat) hat
        in_page := fun i data hi hat => hc.in_page i data (hlive i data hi hat) hat
        read_eq := fun i data hi hat => hc.read_eq i data (hlive i data hi hat) hat
        disjoint := fun i j data data' hi hj hij hati hatj =>
          hc.disjoint i j data data' (hlive i data hi hati) (hlive j data' hj hatj) hij hati hatj }
  · -- a live slot: its record is copied below those moved so far
    obtain ⟨data, hat, hdata⟩ := h.at_of_slotLength hk hlen
    have hrec : recordLength recs[k] = data.length := by rw [← h.slotLength_eq k hk, hdata]
    have hpos : 0 < data.length := by omega
    have hroom := h.room
    have hge := h.offset_ge k data hat
    have hoff : c.page.slotOffset k = page.slotOffset k := hc.slotOffset_eq k (by omega)
    have hfits : data.length ≤ c.writePos := by
      have hall := h.used_le
      have hdrop := Records.used_drop_le recs k
      omega
    rw [slotPos_eq] at hroom
    rw [pageSizeSe] at hwrite
    have hnew : (2 ^ 16 + c.writePos - data.length) % 2 ^ 16 = c.writePos - data.length := by
      omega
    have hload : c.page.load (c.page.slotOffset k) data.length = data := by
      rw [hoff, hc.load_eq _ _ (by rw [slotPos_eq]; omega)]
      exact h.load_eq k data hat
    have hmove : c.move k =
        { page := c.page.setSlotOffset k (c.writePos - data.length)
          temp := Buffer.write c.temp (c.writePos - data.length) data
          writePos := c.writePos - data.length } := by
      rw [Compaction.move, hc.slotLength_eq k hk, hdata]
      dsimp only
      rw [if_pos hpos, hnew, hload]
    have hsame : (c.move k).page.slotOffset k = c.writePos - data.length := by
      rw [hmove]
      simp only [setSlotOffset, slotOffset, slotPos_eq]
      rw [field_setField]
      · show 16 + 4 * k + 2 ≤ 5120
        omega
      · omega
    have hother : ∀ i, i ≠ k → (c.move k).page.slotOffset i = c.page.slotOffset i := by
      intro i hi
      rw [hmove]
      simp only [setSlotOffset, slotOffset, slotPos_eq]
      rw [field_setField_of_disjoint (by omega)]
    have hread : ∀ pos len, c.writePos ≤ pos →
        Buffer.read (c.move k).temp pos len = Buffer.read c.temp pos len := by
      intro pos len hle
      rw [hmove]
      exact Buffer.read_write_of_disjoint (by omega)
    have hpos' : (c.move k).writePos = c.writePos - data.length := by rw [hmove]
    have hcases : ∀ i d, k ≤ i → recs.at i = some d → i = k ∧ d = data ∨ k + 1 ≤ i := by
      intro i d hi hd
      rcases Nat.lt_or_eq_of_le hi with hlt | heq
      · exact Or.inr hlt
      · rw [← heq, hat] at hd
        cases hd
        exact Or.inl ⟨heq.symm, rfl⟩
    refine
      { length_temp := ?_
        writePos_eq := ?_
        flags_eq := ?_
        slotCount_eq := ?_
        freeSpaceEnd_eq := ?_
        slotLength_eq := ?_
        slotOffset_eq := ?_
        load_eq := ?_
        offset_ge := ?_
        in_page := ?_
        read_eq := ?_
        disjoint := ?_ }
    · rw [hmove]
      exact (Buffer.length_write _ _ _).trans hc.length_temp
    · rw [hpos', pageSizeSe]
      omega
    · rw [hmove, ← hc.flags_eq]
      exact field_setField_of_disjoint (by rw [slotPos_eq]; omega)
    · rw [hmove, ← hc.slotCount_eq]
      exact field_setField_of_disjoint (by rw [slotPos_eq]; omega)
    · rw [hmove, ← hc.freeSpaceEnd_eq]
      exact field_setField_of_disjoint (by rw [slotPos_eq]; omega)
    · intro i hi
      rw [hmove, ← hc.slotLength_eq i hi]
      exact field_setField_of_disjoint (by simp only [slotPos_eq]; omega)
    · intro i hi
      rw [hother i (by omega), hc.slotOffset_eq i (by omega)]
    · intro pos len hle
      rw [slotPos_eq] at hle
      rw [hmove, ← hc.load_eq pos len (by rw [slotPos_eq]; omega)]
      exact load_setField_of_disjoint (by rw [slotPos_eq]; omega)
    · intro i d hi hd
      rcases hcases i d hi hd with ⟨rfl, rfl⟩ | hlt
      · rw [hsame, hpos']
      · have hle := hc.offset_ge i d hlt hd
        rw [hother i (by omega), hpos']
        omega
    · intro i d hi hd
      rcases hcases i d hi hd with ⟨rfl, rfl⟩ | hlt
      · rw [hsame, pageSizeSe]
        omega
      · rw [hother i (by omega)]
        exact hc.in_page i d hlt hd
    · intro i d hi hd
      rcases hcases i d hi hd with ⟨rfl, rfl⟩ | hlt
      · rw [hsame, hmove]
        refine Buffer.read_write ?_
        rw [hc.length_temp, pageSizeSe]
        omega
      · rw [hother i (by omega), hread _ _ (hc.offset_ge i d hlt hd)]
        exact hc.read_eq i d hlt hd
    · intro i j d d' hi hj hij hdi hdj
      rcases hcases i d hi hdi with ⟨rfl, rfl⟩ | hlti <;>
        rcases hcases j d' hj hdj with ⟨rfl, rfl⟩ | hltj
      · exact absurd rfl hij
      · have hle := hc.offset_ge j d' hltj hdj
        rw [hsame, hother j (by omega)]
        omega
      · have hle := hc.offset_ge i d hlti hdi
        rw [hsame, hother i (by omega)]
        omega
      · rw [hother i (by omega), hother j (by omega)]
        exact hc.disjoint i j d d' hlti hltj hij hdi hdj

theorem Compaction.Moved.loop {c : Compaction} {k : Nat} (h : page.Holds recs)
    (hk : k ≤ recs.length) (hc : c.Moved page recs k) :
    (Compaction.loop k c).Moved page recs 0 := by
  induction k generalizing c with
  | zero => exact hc
  | succ k ih => exact ih (by omega) (hc.move h hk)

theorem Compaction.Moved.start (page : SlottedPage) (recs : Records) :
    Compaction.Moved page recs recs.length
      { page := page, temp := List.replicate pageSizeSe 0, writePos := pageSizeSe } where
  length_temp := List.length_replicate
  writePos_eq := by rw [List.drop_length, Records.used, List.map_nil, List.sum_nil, Nat.add_zero]
  flags_eq := rfl
  slotCount_eq := rfl
  freeSpaceEnd_eq := rfl
  slotLength_eq := fun _ _ => rfl
  slotOffset_eq := fun _ _ => rfl
  load_eq := fun _ _ _ => rfl
  offset_ge := fun _ _ hi hat => absurd (SlottedPage.Holds.lt_of_at hat) (by omega)
  in_page := fun _ _ hi hat => absurd (SlottedPage.Holds.lt_of_at hat) (by omega)
  read_eq := fun _ _ hi hat => absurd (SlottedPage.Holds.lt_of_at hat) (by omega)
  disjoint := fun _ _ _ _ hi _ _ hat _ => absurd (SlottedPage.Holds.lt_of_at hat) (by omega)

/-- Compaction keeps every record in its slot. -/
theorem SlottedPage.Holds.compact (h : page.Holds recs) :
    (slottedPageCompact page).Holds recs := by
  rw [slottedPageCompact]
  split
  · exact h
  · have hmax := h.count_le
    have hroom := h.room
    have hfits := h.used_le
    rw [maxSlotCount] at hmax
    rw [slotPos_eq] at hroom
    have hc := (Compaction.Moved.start page recs).loop h le_rfl
    rw [← h.slotCount_eq] at hc
    dsimp only
    generalize Compaction.loop page.slotCount _ = c at hc
    have hwrite := hc.writePos_eq
    rw [List.drop_zero] at hwrite
    have hdata : (Buffer.read c.temp c.writePos (pageSizeSe - c.writePos)).length =
        pageSizeSe - c.writePos := by
      refine Buffer.length_read ?_
      rw [hc.length_temp]
      omega
    -- Nothing below the records is written, the end of the free space apart.
    have hfield : ∀ p w, p + w ≤ c.writePos → p + w ≤ 8 ∨ 10 ≤ p →
        ((c.page.store c.writePos (Buffer.read c.temp c.writePos
          (pageSizeSe - c.writePos))).setFreeSpaceEnd c.writePos).field p w = c.page.field p w := by
      intro p w hp hd
      rw [setFreeSpaceEnd, field_setField_of_disjoint (by omega),
        field_store_of_disjoint (Or.inl hp)]
    have hend : ((c.page.store c.writePos (Buffer.read c.temp c.writePos
        (pageSizeSe - c.writePos))).setFreeSpaceEnd c.writePos).freeSpaceEnd = c.writePos := by
      rw [setFreeSpaceEnd, freeSpaceEnd, field_setField (by decide)]
      rw [pageSizeSe] at hwrite
      omega
    have hoffset : ∀ i < recs.length, ((c.page.store c.writePos (Buffer.read c.temp c.writePos
        (pageSizeSe - c.writePos))).setFreeSpaceEnd c.writePos).slotOffset i =
          c.page.slotOffset i := by
      intro i hi
      refine hfield _ _ ?_ ?_ <;> rw [slotPos_eq] <;> omega
    refine
      { flags_eq := ?_
        slotCount_eq := ?_
        count_le := h.count_le
        room := ?_
        slotLength_eq := ?_
        ne_nil := h.ne_nil
        offset_ge := ?_
        in_page := ?_
        load_eq := ?_
        disjoint := ?_
        used_le := ?_ }
    · rw [← h.flags_eq, ← hc.flags_eq]
      exact hfield 10 2 (by omega) (by omega)
    · rw [← h.slotCount_eq, ← hc.slotCount_eq]
      exact hfield 4 2 (by omega) (by omega)
    · rw [hend, slotPos_eq]
      omega
    · intro i hi
      rw [← h.slotLength_eq i hi, ← hc.slotLength_eq i hi]
      refine hfield _ _ ?_ ?_ <;> rw [slotPos_eq] <;> omega
    · intro i data hat
      rw [hend, hoffset i (lt_of_at hat)]
      exact hc.offset_ge i data (Nat.zero_le i) hat
    · intro i data hat
      rw [hoffset i (lt_of_at hat)]
      exact hc.in_page i data (Nat.zero_le i) hat
    · intro i data hat
      have hge := hc.offset_ge i data (Nat.zero_le i) hat
      have hle := hc.in_page i data (Nat.zero_le i) hat
      rw [hoffset i (lt_of_at hat), setFreeSpaceEnd, load_setField_of_disjoint (by omega)]
      have hstored : (c.page.store c.writePos (Buffer.read c.temp c.writePos
          (pageSizeSe - c.writePos))).load (c.page.slotOffset i) data.length =
            Buffer.read (Buffer.read c.temp c.writePos (pageSizeSe - c.writePos))
              (c.page.slotOffset i - c.writePos) data.length := by
        refine Buffer.read_write_inside ?_ hge (by omega)
        rw [hdata, c.page.size]
        show c.writePos + (4096 - c.writePos) ≤ 5120
        rw [pageSizeSe] at hwrite
        omega
      rw [hstored, Buffer.read_read (by omega), Nat.add_sub_cancel' hge]
      exact hc.read_eq i data (Nat.zero_le i) hat
    · intro i j data data' hij hi hj
      rw [hoffset i (lt_of_at hi), hoffset j (lt_of_at hj)]
      exact hc.disjoint i j data data' (Nat.zero_le i) (Nat.zero_le j) hij hi hj
    · rw [hend]
      omega

theorem SlottedPage.Holds.madeRoom (h : page.Holds recs) (needed : Nat) :
    (makeRoom page needed).2.Holds recs ∧ ((makeRoom page needed).1 = true →
      needed ≤ slottedPageFreeSpace (makeRoom page needed).2) := by
  rw [makeRoom]
  split
  · refine ⟨h.compact, fun hfits => ?_⟩
    simpa using hfits
  next hfits => exact ⟨h, fun _ => Nat.le_of_not_lt hfits⟩

end Compact

/-! ## Insert, delete and update -/

section Operations

variable {page page' : SlottedPage} {recs : Records} {slot : Nat} {data : List UInt8}

theorem SlottedPage.Holds.init (pageId : UInt32) : (slottedPageInit pageId).Holds [] := by
  have hcount : (slottedPageInit pageId).slotCount = 0 := by
    simp only [slottedPageInit, slotCount, setFlags, setFreeSpaceEnd, setFreeSpaceStart,
      setSlotCount]
    rw [field_setField_of_disjoint (by omega), field_setField_of_disjoint (by omega),
      field_setField_of_disjoint (by omega), field_setField_of_disjoint (by omega),
      field_setField (by decide) (by decide)]
  have hend : (slottedPageInit pageId).freeSpaceEnd = pageSizeSe := by
    simp only [slottedPageInit, freeSpaceEnd, setFlags, setFreeSpaceEnd]
    rw [field_setField_of_disjoint (by omega), field_setField_of_disjoint (by omega),
      field_setField (by decide) (by decide)]
  have hflags : (slottedPageInit pageId).flags = pageFlagLeaf := by
    simp only [slottedPageInit, flags, setFlags]
    rw [field_setField_of_disjoint (by omega), field_setField (by decide) (by decide)]
  have hnone : ∀ {i data}, ¬ Records.at [] i = some data := by
    intro i data hat
    cases SlottedPage.Holds.lt_of_at hat
  exact
    { flags_eq := hflags
      slotCount_eq := hcount
      count_le := Nat.zero_le _
      room := by
        rw [hend]
        decide
      slotLength_eq := fun _ hi => absurd hi (Nat.not_lt_zero _)
      ne_nil := fun _ _ hat => absurd hat hnone
      offset_ge := fun _ _ hat => absurd hat hnone
      in_page := fun _ _ hat => absurd hat hnone
      load_eq := fun _ _ hat => absurd hat hnone
      disjoint := fun _ _ _ _ _ hat => absurd hat hnone
      used_le := by
        rw [hend]
        exact le_refl _ }

/-- A reused slot is a deleted one. -/
theorem SlottedPage.Holds.freeSlot_spec (h : page.Holds recs) :
    recs.at (freeSlot page) = none ∧
      (freeSlot page = recs.length ∨
        ∃ hlt : freeSlot page < recs.length, recs[freeSlot page] = none) := by
  have hcases : freeSlot page = recs.length ∨
      ∃ hlt : freeSlot page < recs.length, recs[freeSlot page] = none := by
    rw [freeSlot]
    cases hfind : (List.range page.slotCount).find? fun i => page.slotLength i = 0 with
    | none => exact Or.inl (by rw [Option.getD_none, h.slotCount_eq])
    | some i =>
        have hmem := List.mem_of_find?_eq_some hfind
        have hzero := List.find?_some hfind
        rw [List.mem_range, h.slotCount_eq] at hmem
        exact Or.inr ⟨hmem, h.at_eq_none hmem (of_decide_eq_true hzero)⟩
  refine ⟨?_, hcases⟩
  rcases hcases with heq | ⟨hlt, hnone⟩
  · rw [heq, Records.at, List.getElem?_eq_none le_rfl, Option.join_none]
  · rw [Records.at, List.getElem?_eq_getElem hlt, hnone, Option.join_some]

/-- A page that differs from `placeRecord` in its header only. -/
theorem SlottedPage.Holds.placed {recs' : Records} {off : Nat} (h : page.Holds recs)
    (hne : data ≠ []) (hoff : off + data.length = page.freeSpaceEnd)
    (hfield : ∀ p w, 10 ≤ p → page'.field p w = (placeRecord page slot data).field p w)
    (hload : ∀ pos len, 10 ≤ pos → page'.load pos len = (placeRecord page slot data).load pos len)
    (hcount : page'.slotCount = recs'.length) (hend' : page'.freeSpaceEnd = off)
    (hslot : recs'[slot]? = some (some data)) (hother : ∀ j ≠ slot, recs'[j]? = recs[j]?)
    (hmax : recs'.length ≤ maxSlotCount) (hroom : slotPos (recs'.length + 1) ≤ off)
    (hused : recs'.used ≤ recs.used + data.length) : page'.Holds recs' := by
  have hend : page.freeSpaceEnd ≤ pageSizeSe := by
    have hused := h.used_le
    omega
  have hlt := (List.getElem?_eq_some_iff.mp hslot).1
  have hmax' := hmax
  have hroom' := hroom
  rw [maxSlotCount] at hmax'
  rw [slotPos_eq] at hroom'
  have hafter : slotPos (slot + 1) ≤ off := by
    rw [slotPos_eq]
    omega
  -- The other slots of the directory.
  have hdir : ∀ p w, 16 ≤ p → p + w ≤ slotPos recs'.length →
      p + w ≤ slotPos slot ∨ slotPos (slot + 1) ≤ p → page'.field p w = page.field p w := by
    intro p w hp hle hd
    rw [slotPos_eq] at hle
    rw [hfield p w (by omega), field_placeRecord hend hoff (by omega) hd]
  refine h.place (i := slot) ?_ ?_ hcount hmax (by rw [hend', hoff]) (by rw [hend']; exact hroom)
    ?_ ?_ ?_ ?_ ?_ hne hused
  · intro j
    by_cases hj : j = slot
    · rw [if_pos hj, hj, Records.at, hslot, Option.join_some]
    · rw [if_neg hj, Records.at, Records.at, hother j hj]
  · rw [flags, hfield _ _ le_rfl]
    exact field_placeRecord hend hoff (by omega) (Or.inl (by rw [slotPos_eq]; omega))
  · intro j hj
    by_cases hjs : j = slot
    · subst hjs
      rw [(List.getElem?_eq_some_iff.mp hslot).2, slotLength,
        hfield _ _ (by rw [slotPos_eq]; omega)]
      exact slotLength_placeRecord (by omega) (by rw [maxSlotCount]; omega)
    · have hget := hother j hjs
      rw [List.getElem?_eq_getElem hj] at hget
      obtain ⟨hj', hrec⟩ := List.getElem?_eq_some_iff.mp hget.symm
      rw [← hrec, ← h.slotLength_eq j hj']
      refine hdir _ _ ?_ ?_ ?_ <;> simp only [slotPos_eq] <;> omega
  · rw [hend', slotOffset, hfield _ _ (by rw [slotPos_eq]; omega)]
    exact slotOffset_placeRecord hend hoff (by rw [maxSlotCount]; omega)
  · intro j d hjs hj
    have hj' : j < recs'.length := by
      rw [Records.at_eq_some, ← hother j hjs] at hj
      exact (List.getElem?_eq_some_iff.mp hj).1
    refine hdir _ _ ?_ ?_ ?_ <;> simp only [slotPos_eq] <;> omega
  · rw [hend', hload _ _ (by omega)]
    exact load_placeRecord hend hoff hafter
  · intro pos len hpos
    rw [hload _ _ (by omega)]
    exact load_placeRecord_of_le hend hoff hafter hpos

/-- The record goes into a slot of the directory. -/
theorem SlottedPage.Holds.placed_set (h : page.Holds recs) (hne : data ≠ [])
    (hlt : slot < recs.length)
    (hfit : slotPos (recs.length + 1) + data.length ≤ page.freeSpaceEnd) :
    ((placeRecord page slot data).setFreeSpaceEnd
      (sizeSub page.freeSpaceEnd data.length % 2 ^ 16)).Holds (recs.set slot (some data)) := by
  have hused := h.used_le
  have hend : page.freeSpaceEnd ≤ pageSizeSe := by omega
  have hoff : page.freeSpaceEnd - data.length + data.length = page.freeSpaceEnd := by omega
  have hlen : (recs.set slot (some data)).length = recs.length := List.length_set
  have hroom : slotPos (recs.length + 1) ≤ page.freeSpaceEnd - data.length := by omega
  rw [recordOffset_eq hend hoff]
  refine h.placed hne hoff ?_ ?_ ?_ ?_ (List.getElem?_set_self hlt) ?_ ?_ ?_ ?_
  · exact fun p w hp => field_setField_of_disjoint (Or.inr hp)
  · exact fun pos len hpos => load_setField_of_disjoint (Or.inr hpos)
  · rw [hlen, ← h.slotCount_eq, setFreeSpaceEnd, slotCount,
      field_setField_of_disjoint (by omega)]
    rw [slotPos_eq] at hroom
    exact field_placeRecord hend hoff (by omega) (Or.inl (by rw [slotPos_eq]; omega))
  · rw [setFreeSpaceEnd, freeSpaceEnd, field_setField (by decide)]
    rw [pageSizeSe] at hend
    omega
  · exact fun j hj => List.getElem?_set_ne (Ne.symm hj)
  · rw [hlen]
    exact h.count_le
  · rw [hlen]
    exact hroom
  · have hset := Records.used_set hlt (some data)
    rw [recordLength_some] at hset
    omega

/-- The record goes into a new slot. -/
theorem SlottedPage.Holds.placed_append {start : Nat} (h : page.Holds recs) (hne : data ≠ [])
    (hmax : recs.length < maxSlotCount)
    (hfit : slotPos (recs.length + 2) + data.length ≤ page.freeSpaceEnd) :
    ((((placeRecord page recs.length data).setSlotCount (recs.length + 1)).setFreeSpaceStart
      start).setFreeSpaceEnd (sizeSub page.freeSpaceEnd data.length % 2 ^ 16)).Holds
        (recs ++ [some data]) := by
  have hused := h.used_le
  have hend : page.freeSpaceEnd ≤ pageSizeSe := by omega
  have hoff : page.freeSpaceEnd - data.length + data.length = page.freeSpaceEnd := by omega
  have hlen : (recs ++ [some data]).length = recs.length + 1 := List.length_append
  rw [recordOffset_eq hend hoff]
  refine h.placed hne hoff ?_ ?_ ?_ ?_ List.getElem?_concat_length ?_ ?_ ?_ ?_
  · intro p w hp
    rw [setFreeSpaceEnd, field_setField_of_disjoint (Or.inr hp), setFreeSpaceStart,
      field_setField_of_disjoint (by omega), setSlotCount, field_setField_of_disjoint (by omega)]
  · intro pos len hpos
    rw [setFreeSpaceEnd, load_setField_of_disjoint (Or.inr hpos), setFreeSpaceStart,
      load_setField_of_disjoint (by omega), setSlotCount, load_setField_of_disjoint (by omega)]
  · rw [maxSlotCount] at hmax
    rw [hlen, setFreeSpaceEnd, slotCount, field_setField_of_disjoint (by omega),
      setFreeSpaceStart, field_setField_of_disjoint (by omega), setSlotCount,
      field_setField (by decide)]
    omega
  · rw [setFreeSpaceEnd, freeSpaceEnd, field_setField (by decide)]
    rw [pageSizeSe] at hend
    omega
  · intro j hj
    rcases Nat.lt_or_gt_of_ne hj with hlt | hgt
    · rw [List.getElem?_append_left hlt]
    · rw [List.getElem?_eq_none (by omega), List.getElem?_eq_none (by omega)]
  · omega
  · rw [hlen]
    show slotPos (recs.length + 2) ≤ page.freeSpaceEnd - data.length
    omega
  · rw [Records.used_append]
    exact le_refl _

/-- What an insert does: nothing to the records, or one more in a slot that had none. -/
theorem SlottedPage.Holds.insert (h : page.Holds recs) (data : List UInt8) :
    match slottedPageInsert page data with
    | (none, page') => page'.Holds recs
    | (some slot, page') => recs.at slot = none ∧
        ∃ recs', page'.Holds recs' ∧
          ∀ j, recs'.at j = if j = slot then some data else recs.at j := by
  rw [slottedPageInsert]
  by_cases hempty : data.length = 0
  · rw [if_pos hempty]
    exact h
  · have hne : data ≠ [] := fun hnil => hempty (by rw [hnil, List.length_nil])
    obtain ⟨hroomed, hfits⟩ := h.madeRoom (data.length + slotEntrySize)
    rw [if_neg hempty]
    generalize makeRoom page (data.length + slotEntrySize) = r at hroomed hfits
    obtain ⟨fits, page⟩ := r
    cases fits with
    | false => exact hroomed
    | true =>
        have hneeded := hfits rfl
        rw [hroomed.freeSpace_eq] at hneeded
        dsimp only at hroomed hneeded ⊢
        have hroom := hroomed.room
        have hfit : slotPos (recs.length + 2) + data.length ≤ page.freeSpaceEnd := by
          rw [slotPos_eq, slotEntrySize] at *
          omega
        obtain ⟨hfree, hslot⟩ := hroomed.freeSlot_spec
        rw [Bool.not_true, if_neg Bool.false_ne_true]
        by_cases hmany : freeSlot page ≥ maxSlotCount
        · rw [if_pos hmany]
          exact hroomed
        · have hcount : (placeRecord page (freeSlot page) data).slotCount =
              recs.length := by
            have hend : page.freeSpaceEnd ≤ pageSizeSe := by
              have hused := hroomed.used_le
              omega
            rw [slotPos_eq] at hfit
            rw [← hroomed.slotCount_eq, slotCount]
            exact field_placeRecord hend
              (show page.freeSpaceEnd - data.length + data.length = page.freeSpaceEnd by omega)
              (by omega) (Or.inl (by rw [slotPos_eq]; omega))
          rw [if_neg hmany, hcount]
          refine ⟨hfree, ?_⟩
          rcases hslot with heq | ⟨hlt, -⟩
          · rw [heq] at hmany ⊢
            rw [if_pos le_rfl]
            refine ⟨_, hroomed.placed_append hne (by omega) hfit, ?_⟩
            exact Records.at_append recs (some data)
          · rw [if_neg (by omega)]
            refine ⟨_, hroomed.placed_set hne hlt ?_, ?_⟩
            · rw [slotPos_eq] at hfit ⊢
              omega
            · exact Records.at_set hlt (some data)

/-- A record is dropped, or replaced by one that fits in its place. -/
theorem SlottedPage.Holds.shrink {old : List UInt8} {r : Option (List UInt8)} (h : page.Holds recs)
    (hold : recs.at slot = some old)
    (hr : ∀ d, r = some d → d ≠ [] ∧ d.length ≤ old.length ∧
      page'.load (page.slotOffset slot) d.length = d)
    (hflags : page'.flags = page.flags) (hcount : page'.slotCount = page.slotCount)
    (hend : page'.freeSpaceEnd = page.freeSpaceEnd)
    (hlength : page'.slotLength slot = recordLength r)
    (hlengths : ∀ j < recs.length, j ≠ slot → page'.slotLength j = page.slotLength j)
    (hoffset : ∀ j < recs.length, page'.slotOffset j = page.slotOffset j)
    (hkeep : ∀ j d, j ≠ slot → recs.at j = some d →
      page'.load (page.slotOffset j) d.length = page.load (page.slotOffset j) d.length) :
    page'.Holds (recs.set slot r) := by
  have hlt := lt_of_at hold
  have hlen : (recs.set slot r).length = recs.length := List.length_set
  -- A record of the new page lies where a record of the old page lies that is no shorter.
  have hbefore : ∀ j d, Records.at (recs.set slot r) j = some d →
      ∃ d', recs.at j = some d' ∧ d.length ≤ d'.length := by
    intro j d hj
    rw [Records.at_set hlt] at hj
    split at hj
    next heq => exact ⟨old, by rw [heq, hold], (hr d hj).2.1⟩
    next => exact ⟨d, hj, le_refl _⟩
  refine
    { flags_eq := by rw [hflags, h.flags_eq]
      slotCount_eq := by rw [hcount, hlen, h.slotCount_eq]
      count_le := by rw [hlen]; exact h.count_le
      room := by rw [hend, hlen]; exact h.room
      slotLength_eq := ?_
      ne_nil := ?_
      offset_ge := ?_
      in_page := ?_
      load_eq := ?_
      disjoint := ?_
      used_le := ?_ }
  · intro j hj
    rw [hlen] at hj
    rw [List.getElem_set]
    split
    next heq => rw [← heq, hlength]
    next hne => rw [hlengths j hj (Ne.symm hne), h.slotLength_eq j hj]
  · intro j d hj
    rw [Records.at_set hlt] at hj
    split at hj
    next => exact (hr d hj).1
    next => exact h.ne_nil j d hj
  · intro j d hj
    obtain ⟨d', hd', -⟩ := hbefore j d hj
    rw [hend, hoffset j (lt_of_at hd')]
    exact h.offset_ge j d' hd'
  · intro j d hj
    obtain ⟨d', hd', hle⟩ := hbefore j d hj
    have hin := h.in_page j d' hd'
    rw [hoffset j (lt_of_at hd')]
    omega
  · intro j d hj
    obtain ⟨d', hd', -⟩ := hbefore j d hj
    rw [hoffset j (lt_of_at hd')]
    rw [Records.at_set hlt] at hj
    split at hj
    next heq =>
      rw [heq]
      exact (hr d hj).2.2
    next hne =>
      rw [hkeep j d hne hj]
      exact h.load_eq j d hj
  · intro i j d d' hij hi hj
    obtain ⟨e, he, hle⟩ := hbefore i d hi
    obtain ⟨e', he', hle'⟩ := hbefore j d' hj
    have hapart := h.disjoint i j e e' hij he he'
    rw [hoffset i (lt_of_at he), hoffset j (lt_of_at he')]
    omega
  · have hset := Records.used_set hlt r
    have hused := h.used_le
    have hget := (List.getElem?_eq_some_iff.mp (Records.at_eq_some.mp hold)).2
    have hle : recordLength r ≤ old.length := by
      cases r with
      | none => exact Nat.zero_le _
      | some d => exact (hr d rfl).2.1
    rw [hget, recordLength_some] at hset
    rw [hend]
    omega

theorem SlottedPage.Holds.setSlotLength_zero {old : List UInt8} (h : page.Holds recs)
    (hold : recs.at slot = some old) : (page.setSlotLength slot 0).Holds (recs.set slot none) := by
  have hmax := h.count_le
  have hlt := lt_of_at hold
  have hroom := h.room
  rw [maxSlotCount] at hmax
  rw [slotPos_eq] at hroom
  refine h.shrink hold (fun d hd => by cases hd) ?_ ?_ ?_ ?_ ?_ ?_ ?_
  · exact field_setField_of_disjoint (by rw [slotPos_eq]; omega)
  · exact field_setField_of_disjoint (by rw [slotPos_eq]; omega)
  · exact field_setField_of_disjoint (by rw [slotPos_eq]; omega)
  · rw [setSlotLength, slotLength, field_setField]
    · rfl
    · rw [slotPos_eq]
      show 16 + 4 * slot + 2 + 2 ≤ 5120
      omega
    · decide
  · exact fun j _ hj => field_setField_of_disjoint (by simp only [slotPos_eq]; omega)
  · exact fun j _ => field_setField_of_disjoint (by simp only [slotPos_eq]; omega)
  · intro j d _ hj
    have hge := h.offset_ge j d hj
    exact load_setField_of_disjoint (by rw [slotPos_eq]; omega)

/-- What a delete does. -/
theorem SlottedPage.Holds.delete (h : page.Holds recs) (slot : Nat) :
    match slottedPageDelete page slot with
    | (false, page') => page' = page ∧ recs.at slot = none
    | (true, page') => page' = page.setSlotLength slot 0 ∧ (∃ old, recs.at slot = some old) ∧
        page'.Holds (recs.set slot none) := by
  rw [slottedPageDelete, h.slotCount_eq]
  by_cases hslot : slot ≥ recs.length
  · rw [if_pos hslot]
    exact ⟨rfl, by rw [Records.at, List.getElem?_eq_none hslot, Option.join_none]⟩
  · rw [if_neg hslot]
    by_cases hlen : page.slotLength slot = 0
    · rw [if_pos hlen]
      refine ⟨rfl, ?_⟩
      rw [Records.at, List.getElem?_eq_getElem (by omega), h.at_eq_none (by omega) hlen,
        Option.join_some]
    · obtain ⟨old, hold, -⟩ := h.at_of_slotLength (by omega) hlen
      rw [if_neg hlen]
      exact ⟨rfl, ⟨old, hold⟩, h.setSlotLength_zero hold⟩

theorem SlottedPage.Holds.overwrite {old : List UInt8} (h : page.Holds recs)
    (hold : recs.at slot = some old) (hne : data ≠ []) (hle : data.length ≤ old.length) :
    ((page.store (page.slotOffset slot) data).setSlotLength slot data.length).Holds
      (recs.set slot (some data)) := by
  have hmax := h.count_le
  have hlt := lt_of_at hold
  have hroom := h.room
  have hge := h.offset_ge slot old hold
  have hin := h.in_page slot old hold
  rw [maxSlotCount] at hmax
  rw [slotPos_eq] at hroom
  rw [pageSizeSe] at hin
  have hdata : ((page.store (page.slotOffset slot) data).setSlotLength slot data.length).load
      (page.slotOffset slot) data.length = data := by
    rw [setSlotLength, load_setField_of_disjoint (by rw [slotPos_eq]; omega), load_store]
    show page.slotOffset slot + data.length ≤ 5120
    omega
  have hfield : ∀ p w, p + w ≤ slotPos recs.length →
      p + w ≤ slotPos slot + 2 ∨ slotPos slot + 4 ≤ p →
        ((page.store (page.slotOffset slot) data).setSlotLength slot data.length).field p w =
          page.field p w := by
    intro p w hp hd
    rw [slotPos_eq] at hp
    rw [setSlotLength, field_setField_of_disjoint (by omega), field_store_of_disjoint (by omega)]
  refine h.shrink hold (fun d hd => ?_) ?_ ?_ ?_ ?_ ?_ ?_ ?_
  · cases hd
    exact ⟨hne, hle, hdata⟩
  · exact hfield 10 2 (by rw [slotPos_eq]; omega) (Or.inl (by rw [slotPos_eq]; omega))
  · exact hfield 4 2 (by rw [slotPos_eq]; omega) (Or.inl (by rw [slotPos_eq]; omega))
  · exact hfield 8 2 (by rw [slotPos_eq]; omega) (Or.inl (by rw [slotPos_eq]; omega))
  · rw [setSlotLength, slotLength, field_setField]
    · rfl
    · rw [slotPos_eq]
      show 16 + 4 * slot + 2 + 2 ≤ 5120
      omega
    · omega
  · intro j hj hjs
    exact hfield _ _ (by simp only [slotPos_eq]; omega) (by simp only [slotPos_eq]; omega)
  · intro j hj
    exact hfield _ _ (by simp only [slotPos_eq]; omega) (by simp only [slotPos_eq]; omega)
  · intro j d hjs hj
    have hapart := h.disjoint slot j old d (Ne.symm hjs) hold hj
    have hgej := h.offset_ge j d hj
    rw [setSlotLength, load_setField_of_disjoint (by rw [slotPos_eq]; omega),
      load_store_of_disjoint (by omega)]

/-- What a successful update does. -/
theorem SlottedPage.Holds.update (h : page.Holds recs) (hne : data ≠ [])
    (hupd : slottedPageUpdate page slot data = (true, page')) :
    ∃ recs', page'.Holds recs' ∧ ∀ j, recs'.at j = if j = slot then some data else recs.at j := by
  rw [slottedPageUpdate, h.slotCount_eq] at hupd
  by_cases hslot : slot ≥ recs.length
  · rw [if_pos hslot] at hupd
    cases hupd
  · rw [if_neg hslot] at hupd
    have hlt : slot < recs.length := by omega
    by_cases hlen : page.slotLength slot = 0
    · rw [if_pos hlen] at hupd
      cases hupd
    · obtain ⟨old, hold, hlength⟩ := h.at_of_slotLength hlt hlen
      rw [if_neg hlen] at hupd
      by_cases hfits : data.length ≤ page.slotLength slot
      · rw [if_pos hfits] at hupd
        cases hupd
        exact ⟨_, h.overwrite hold hne (by omega), Records.at_set hlt (some data)⟩
      · rw [if_neg hfits] at hupd
        have hdelete := h.delete slot
        generalize slottedPageDelete page slot = deleted at hdelete hupd
        obtain ⟨ok, page1⟩ := deleted
        cases ok with
        | false =>
            rw [hold] at hdelete
            cases hdelete.2
        | true =>
            obtain ⟨hroomed, hneeded⟩ := hdelete.2.2.madeRoom data.length
            dsimp only at hupd
            generalize makeRoom page1 data.length = r at hroomed hneeded hupd
            obtain ⟨fits, page2⟩ := r
            cases fits with
            | false => cases hupd
            | true =>
                have hspace := hneeded rfl
                dsimp only at hroomed hspace
                have hroom := hroomed.room
                rw [hroomed.freeSpace_eq] at hspace
                have hset : slot < (recs.set slot none).length := by rwa [List.length_set]
                rw [Bool.not_true, if_neg Bool.false_ne_true] at hupd
                cases hupd
                refine ⟨_, hroomed.placed_set hne hset (by omega), fun j => ?_⟩
                rw [List.set_set, Records.at_set hlt]

end Operations

/-! ## Runs -/

inductive PageOp
  | insert (data : List UInt8)
  | delete (slot : Nat)
  | update (slot : Nat) (data : List UInt8)
  | compact
  deriving DecidableEq, Repr

/-- A page, and the record that was last stored in each slot and not deleted since. -/
structure PageRun where
  page : SlottedPage
  stored : Nat → Option (List UInt8)

def PageRun.start (pageId : UInt32) : PageRun where
  page := slottedPageInit pageId
  stored := fun _ => none

/-- Updates are of a non-empty record and successful; a failed one has deleted its record. -/
def PageRun.step (s : PageRun) : PageOp → Option PageRun
  | .insert data =>
      match slottedPageInsert s.page data with
      | (none, page) => some { s with page := page }
      | (some slot, page) =>
          some { page := page, stored := Function.update s.stored slot (some data) }
  | .delete slot =>
      match slottedPageDelete s.page slot with
      | (false, page) => some { s with page := page }
      | (true, page) => some { page := page, stored := Function.update s.stored slot none }
  | .update slot data =>
      if data = [] then none
      else
        match slottedPageUpdate s.page slot data with
        | (false, _) => none
        | (true, page) =>
            some { page := page, stored := Function.update s.stored slot (some data) }
  | .compact => some { s with page := slottedPageCompact s.page }

def PageRun.run (s : PageRun) : List PageOp → Option PageRun
  | [] => some s
  | op :: ops => (s.step op).bind fun s' => s'.run ops

/-- The page holds what was stored. -/
def PageRun.Sound (s : PageRun) : Prop :=
  ∃ recs : Records, s.page.Holds recs ∧ ∀ slot, s.stored slot = recs.at slot

theorem PageRun.Sound.start (pageId : UInt32) : (PageRun.start pageId).Sound :=
  ⟨[], SlottedPage.Holds.init pageId, fun _ => rfl⟩

theorem PageRun.Sound.step {s s' : PageRun} {op : PageOp} (h : s.Sound)
    (hstep : s.step op = some s') : s'.Sound := by
  obtain ⟨recs, hpage, hstored⟩ := h
  -- The slot that an operation writes has the new record, the others what they had.
  have hupdate : ∀ {slot : Nat} {r : Option (List UInt8)} {recs' : Records},
      (∀ j, recs'.at j = if j = slot then r else recs.at j) →
        ∀ j, Function.update s.stored slot r j = recs'.at j := by
    intro slot r recs' hat j
    rw [hat j, Function.update_apply, hstored j]
  cases op with
  | insert data =>
      have hinsert := hpage.insert data
      rw [PageRun.step] at hstep
      split at hstep
      next page heq =>
        rw [heq] at hinsert
        cases hstep
        exact ⟨recs, hinsert, hstored⟩
      next slot page heq =>
        rw [heq] at hinsert
        obtain ⟨-, recs', hpage', hat⟩ := hinsert
        cases hstep
        exact ⟨recs', hpage', hupdate hat⟩
  | delete slot =>
      have hdelete := hpage.delete slot
      rw [PageRun.step] at hstep
      split at hstep
      next page heq =>
        rw [heq] at hdelete
        cases hstep
        exact ⟨recs, hdelete.1 ▸ hpage, hstored⟩
      next page heq =>
        rw [heq] at hdelete
        obtain ⟨-, ⟨old, hold⟩, hpage'⟩ := hdelete
        cases hstep
        exact ⟨_, hpage', hupdate (Records.at_set (SlottedPage.Holds.lt_of_at hold) none)⟩
  | update slot data =>
      rw [PageRun.step] at hstep
      split at hstep
      · cases hstep
      next hne =>
        split at hstep
        · cases hstep
        next page heq =>
          obtain ⟨recs', hpage', hat⟩ := hpage.update hne heq
          cases hstep
          exact ⟨recs', hpage', hupdate hat⟩
  | compact =>
      cases hstep
      exact ⟨recs, hpage.compact, hstored⟩

theorem PageRun.Sound.run {s s' : PageRun} {ops : List PageOp} (h : s.Sound)
    (hrun : s.run ops = some s') : s'.Sound := by
  induction ops generalizing s with
  | nil =>
      cases hrun
      exact h
  | cons op ops ih =>
      obtain ⟨s1, hstep, hrest⟩ := Option.bind_eq_some_iff.mp hrun
      exact ih (h.step hstep) hrest

/-- The second subtraction of `slotted_page_free_space` does not wrap around. -/
def SlottedPage.FreeSpaceExact (page : SlottedPage) : Prop :=
  page.freeSpaceEnd > slotPos page.slotCount →
    page.freeSpaceEnd - slotPos page.slotCount ≥ slotEntrySize

theorem slottedPage_refines_map (pageId : UInt32) (ops : List PageOp) (s : PageRun)
    (hrun : (PageRun.start pageId).run ops = some s) :
    (∀ slot, slottedPageGet s.page slot = s.stored slot) ∧
      (∀ data slot page, slottedPageInsert s.page data = (some slot, page) →
        s.stored slot = none) ∧
      (∀ slot data, s.stored slot = some data →
        slotPos s.page.slotCount ≤ s.page.slotOffset slot ∧
          s.page.slotOffset slot + data.length ≤ pageSizeSe) ∧
      (∀ slot slot' data data', slot ≠ slot' → s.stored slot = some data →
        s.stored slot' = some data' →
          s.page.slotOffset slot + data.length ≤ s.page.slotOffset slot' ∨
            s.page.slotOffset slot' + data'.length ≤ s.page.slotOffset slot) ∧
      s.page.FreeSpaceExact := by
  obtain ⟨recs, hpage, hstored⟩ := (PageRun.Sound.start pageId).run hrun
  have hroom := hpage.room
  refine ⟨fun slot => ?_, fun data slot page hins => ?_, fun slot data hslot => ?_,
    fun slot slot' data data' hne hslot hslot' => ?_, fun _ => ?_⟩
  · rw [hstored slot, hpage.get_eq slot]
  · have hinsert := hpage.insert data
    rw [hins] at hinsert
    rw [hstored slot, hinsert.1]
  · rw [hstored slot] at hslot
    have hge := hpage.offset_ge slot data hslot
    rw [slotPos_eq] at hroom
    rw [hpage.slotCount_eq, slotPos_eq]
    exact ⟨by omega, hpage.in_page slot data hslot⟩
  · rw [hstored slot] at hslot
    rw [hstored slot'] at hslot'
    exact hpage.disjoint slot slot' data data' hne hslot hslot'
  · rw [hpage.slotCount_eq]
    rw [slotPos_eq] at hroom ⊢
    rw [slotEntrySize]
    omega

/-- A slot is reused, a record outgrows its place, and the page is compacted. -/
theorem slottedPage_refines_map_reuse :
    ∃ s, (PageRun.start 1).run [.insert [1, 2, 3], .insert [4], .delete 0, .insert [5, 6],
      .update 1 [7, 8, 9], .compact] = some s ∧ slottedPageGet s.page 0 = s.stored 0 := by
  obtain ⟨s, hrun⟩ := Option.isSome_iff_exists.mp
    (show ((PageRun.start 1).run [.insert [1, 2, 3], .insert [4], .delete 0, .insert [5, 6],
      .update 1 [7, 8, 9], .compact]).isSome = true by decide +kernel)
  exact ⟨s, hrun, (slottedPage_refines_map 1 _ s hrun).1 0⟩

end Storage
end InventixDB
