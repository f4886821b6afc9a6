import Mathlib.Data.List.Basic
import Mathlib.Algebra.GroupWithZero.Nat
import InventixDB.Lib.ByteCodec

/-!
# Buffer — a block of memory written in place

A buffer is the list of its bytes.  `write` is `memcpy` into it and `read` is `memcpy` out of it:
what was written is read back, and a write changes nothing outside its range.
-/

namespace InventixDB
namespace Lib
namespace Buffer

variable {α : Type*} {buf data : List α} {pos p l : Nat}

/-! ## Operations -/

/-- Copy `data` to position `pos`; nothing is written past the end. -/
def write (buf : List α) (pos : Nat) (data : List α) : List α :=
  buf.take pos ++ (data.take (buf.length - pos) ++ buf.drop (pos + data.length))

/-- The `l` elements from position `p` on. -/
def read (buf : List α) (p l : Nat) : List α :=
  (buf.drop p).take l

/-! ## Lengths -/

@[simp]
theorem length_write (buf : List α) (pos : Nat) (data : List α) :
    (write buf pos data).length = buf.length := by
  simp only [write, List.length_append, List.length_take, List.length_drop]
  omega

theorem length_read (h : p + l ≤ buf.length) : (read buf p l).length = l := by
  simp only [read, List.length_take, List.length_drop]
  omega

/-! ## Reading after a write -/

theorem getElem?_write (i : Nat) :
    (write buf pos data)[i]? =
      if pos ≤ i ∧ i < pos + data.length ∧ i < buf.length then data[i - pos]? else buf[i]? := by
  by_cases hbuf : i < buf.length
  · by_cases hlow : i < pos
    · rw [if_neg (by omega), write, List.getElem?_append_left (by rw [List.length_take]; omega),
        List.getElem?_take_of_lt hlow]
    · have htake : (buf.take pos).length = pos := by
        rw [List.length_take]
        omega
      rw [write, List.getElem?_append_right (by omega), htake]
      by_cases hin : i < pos + data.length
      · rw [List.getElem?_append_left (by rw [List.length_take]; omega),
          List.getElem?_take_of_lt (by omega), if_pos ⟨by omega, hin, hbuf⟩]
      · rw [List.getElem?_append_right (by rw [List.length_take]; omega), List.length_take,
          List.getElem?_drop, if_neg (by omega)]
        congr 1
        omega
  · have hnone : (write buf pos data)[i]? = none := by
      rw [List.getElem?_eq_none]
      rw [length_write]
      omega
    rw [hnone, if_neg (by omega), List.getElem?_eq_none (by omega)]

theorem getElem?_read (i : Nat) : (read buf p l)[i]? = if i < l then buf[p + i]? else none := by
  by_cases hi : i < l
  · rw [read, List.getElem?_take_of_lt hi, List.getElem?_drop, if_pos hi]
  · rw [if_neg hi, List.getElem?_eq_none]
    rw [read, List.length_take]
    omega

/-- A read inside the range of a write sees the part of the data there. -/
theorem read_write_inside (h : pos + data.length ≤ buf.length) (hp : pos ≤ p)
    (hl : p + l ≤ pos + data.length) :
    read (write buf pos data) p l = read data (p - pos) l := by
  refine List.ext_getElem? fun i => ?_
  rw [getElem?_read, getElem?_read]
  by_cases hi : i < l
  · rw [if_pos hi, if_pos hi, getElem?_write, if_pos (by omega)]
    congr 1
    omega
  · rw [if_neg hi, if_neg hi]

theorem read_write (h : pos + data.length ≤ buf.length) :
    read (write buf pos data) pos data.length = data := by
  rw [read_write_inside h le_rfl le_rfl, Nat.sub_self, read, List.drop_zero, List.take_length]

/-- A read that starts with a write and goes on behind it. -/
theorem read_write_head (h : pos + l ≤ buf.length) (hl : data.length ≤ l) :
    read (write buf pos data) pos l = data ++ (read buf pos l).drop data.length := by
  refine List.ext_getElem? fun i => ?_
  rw [getElem?_read, getElem?_write]
  by_cases hi : i < data.length
  · rw [if_pos (by omega), if_pos (by omega), List.getElem?_append_left hi,
      Nat.add_sub_cancel_left]
  · have hout : ¬ (pos ≤ pos + i ∧ pos + i < pos + data.length ∧ pos + i < buf.length) := by omega
    rw [if_neg hout, List.getElem?_append_right (by omega), List.getElem?_drop, getElem?_read,
      Nat.add_sub_cancel' (by omega)]

/-- A write is not seen where it does not reach. -/
theorem read_write_of_disjoint (hd : p + l ≤ pos ∨ pos + data.length ≤ p) :
    read (write buf pos data) p l = read buf p l := by
  refine List.ext_getElem? fun i => ?_
  rw [getElem?_read, getElem?_read]
  by_cases hi : i < l
  · rw [if_pos hi, if_pos hi, getElem?_write, if_neg (by omega)]
  · rw [if_neg hi, if_neg hi]

/-- A shorter read of what a longer read sees. -/
theorem read_read {p' l' : Nat} (h : p' + l' ≤ l) :
    read (read buf p l) p' l' = read buf (p + p') l' := by
  refine List.ext_getElem? fun i => ?_
  simp only [getElem?_read]
  by_cases hi : i < l'
  · rw [if_pos hi, if_pos hi, if_pos (by omega), Nat.add_assoc]
  · rw [if_neg hi, if_neg hi]

/-- Writes to ranges that do not meet can be swapped. -/
theorem write_comm {data' : List α} {pos' : Nat}
    (hd : pos + data.length ≤ pos' ∨ pos' + data'.length ≤ pos) :
    write (write buf pos data) pos' data' = write (write buf pos' data') pos data := by
  refine List.ext_getElem? fun i => ?_
  simp only [getElem?_write, length_write]
  by_cases hi : pos ≤ i ∧ i < pos + data.length ∧ i < buf.length
  · rw [if_neg (by omega), if_pos hi, if_pos hi]
  · rw [if_neg hi, if_neg hi]

/-- The later of two writes stands where it covers the earlier one. -/
theorem write_write {data' : List α} (hle : data.length ≤ data'.length) :
    write (write buf pos data) pos data' = write buf pos data' := by
  refine List.ext_getElem? fun i => ?_
  simp only [getElem?_write, length_write]
  by_cases hi : pos ≤ i ∧ i < pos + data'.length ∧ i < buf.length
  · rw [if_pos hi, if_pos hi]
  · rw [if_neg hi, if_neg hi, if_neg (by omega)]

theorem write_nil (buf : List α) (pos : Nat) : write buf pos [] = buf := by
  rw [write, List.take_nil, List.nil_append, List.length_nil, Nat.add_zero, List.take_append_drop]

/-- Writing back what is there changes nothing. -/
theorem write_read (h : p + l ≤ buf.length) : write buf p (read buf p l) = buf := by
  have hlen := length_read h
  refine List.ext_getElem? fun i => ?_
  rw [getElem?_write, hlen]
  by_cases hi : p ≤ i ∧ i < p + l ∧ i < buf.length
  · rw [if_pos hi, getElem?_read, if_pos (by omega)]
    congr 1
    omega
  · rw [if_neg hi]

/-! ## Little-endian fields -/

open ByteCodec

/-- The `w`-byte integer at position `p`. -/
def readLE (buf : List UInt8) (p w : Nat) : Nat :=
  leNat (read buf p w)

def writeLE (buf : List UInt8) (p w v : Nat) : List UInt8 :=
  write buf p (leBytes w v)

variable {bytes : List UInt8} {w w' v : Nat}

@[simp]
theorem length_writeLE (bytes : List UInt8) (p w v : Nat) :
    (writeLE bytes p w v).length = bytes.length :=
  length_write bytes p _

theorem readLE_writeLE (h : p + w ≤ bytes.length) :
    readLE (writeLE bytes p w v) p w = v % 256 ^ w := by
  have hread : read (write bytes p (leBytes w v)) p (leBytes w v).length = leBytes w v :=
    read_write (by rwa [length_leBytes])
  rw [length_leBytes] at hread
  rw [readLE, writeLE, hread, leNat_leBytes]

theorem readLE_write_of_disjoint {data : List UInt8}
    (hd : p + w ≤ pos ∨ pos + data.length ≤ p) :
    readLE (write bytes pos data) p w = readLE bytes p w := by
  rw [readLE, readLE, read_write_of_disjoint hd]

theorem readLE_writeLE_of_disjoint (hd : p + w ≤ pos ∨ pos + w' ≤ p) :
    readLE (writeLE bytes pos w' v) p w = readLE bytes p w :=
  readLE_write_of_disjoint (by rwa [length_leBytes])

theorem read_writeLE_of_disjoint (hd : p + l ≤ pos ∨ pos + w' ≤ p) :
    read (writeLE bytes pos w' v) p l = read bytes p l :=
  read_write_of_disjoint (by rwa [length_leBytes])

end Buffer
end Lib
end InventixDB
