import InventixDB.Storage.Lz4

/-!
# Rle — the run-length encoding of the column store

An encoded block is the size of the original and a list of runs: a count of at most 255 and the byte
that is repeated.
-/

namespace InventixDB
namespace Storage

open Lib.ByteCodec

/-! ## The encoder -/

/-- The inner `while` of the encoder; the run grows by at most `left` more bytes. -/
def runLoop (src : List UInt8) (i : Nat) (current : UInt8) : Nat → Nat → Nat
  | 0, runLength => runLength
  | left + 1, runLength =>
      if i + runLength < src.length ∧ src[i + runLength]? = some current then
        runLoop src i current left (runLength + 1)
      else runLength

theorem le_runLoop (src : List UInt8) (i : Nat) (current : UInt8) (left runLength : Nat) :
    runLength ≤ runLoop src i current left runLength := by
  induction left generalizing runLength with
  | zero => exact le_refl runLength
  | succ left ih =>
      rw [runLoop]
      split
      · exact (Nat.le_succ runLength).trans (ih (runLength + 1))
      · exact le_refl runLength

/-- The length of the run that starts at `i`. -/
def runAt (src : List UInt8) (i : Nat) : Nat :=
  runLoop src i (src.getD i 0) 254 1

theorem runAt_pos (src : List UInt8) (i : Nat) : 0 < runAt src i :=
  le_runLoop src i _ 254 1

def compressRleLoop (src : List UInt8) (dstCapacity i : Nat) (dst : List UInt8) : List UInt8 :=
  if i < src.length ∧ dst.length + 2 ≤ dstCapacity then
    compressRleLoop src dstCapacity (i + runAt src i)
      (dst ++ [UInt8.ofNat (runAt src i), src.getD i 0])
  else dst
termination_by src.length - i
decreasing_by
  have hrun := runAt_pos src i
  omega

/-- The bytes `compress_rle` leaves in `dst`; it returns how many there are. -/
def compressRle (src : List UInt8) (dstCapacity : Nat) : List UInt8 :=
  if src.length = 0 ∨ dstCapacity < 4 then []
  else compressRleLoop src dstCapacity 0 (leBytes 4 src.length)

/-! ## The decoder -/

/-- Write `n` copies of `value`, up to the original size. -/
def fillLoop (origSize : Nat) (value : UInt8) : Nat → Nat → List UInt8 → Nat × List UInt8
  | 0, dstPos, dst => (dstPos, dst)
  | n + 1, dstPos, dst =>
      if dstPos < origSize then fillLoop origSize value n (dstPos + 1) (dst.set dstPos value)
      else (dstPos, dst)

/-- `dstPos` and the output once the runs are used up. -/
def decompressRleLoop (origSize : Nat) : List UInt8 → Nat → List UInt8 → Nat × List UInt8
  | count :: value :: rest, dstPos, dst =>
      if dstPos < origSize then
        let c := fillLoop origSize value count.toNat dstPos dst
        decompressRleLoop origSize rest c.1 c.2
      else (dstPos, dst)
  | _, dstPos, dst => (dstPos, dst)

/-- `decompress_rle` into the buffer `dst`: what it returns, and the buffer afterwards. -/
def decompressRle (src dst : List UInt8) : Nat × List UInt8 :=
  if src.length < 4 then (0, dst)
  else
    let origSize := leNat (src.take 4)
    if origSize > dst.length then (0, dst) else decompressRleLoop origSize (src.drop 4) 0 dst

/-! ## What the encoder emits -/

/-- Every run from `i` on. -/
def runsFrom (src : List UInt8) (i : Nat) : List UInt8 :=
  if i < src.length then
    [UInt8.ofNat (runAt src i), src.getD i 0] ++ runsFrom src (i + runAt src i)
  else []
termination_by src.length - i
decreasing_by
  have hrun := runAt_pos src i
  omega

variable {src out : List UInt8} {i dstCapacity : Nat}

theorem runsFrom_of_lt (h : i < src.length) :
    runsFrom src i =
      [UInt8.ofNat (runAt src i), src.getD i 0] ++ runsFrom src (i + runAt src i) := by
  rw [runsFrom, if_pos h]

theorem runsFrom_of_le (h : src.length ≤ i) : runsFrom src i = [] := by
  rw [runsFrom, if_neg (by omega)]

/-- The bytes of a run, of which `runLength` have been compared, are one byte over and over. -/
theorem runLoop_agrees {current : UInt8} (left runLength : Nat)
    (hbound : i + runLength ≤ src.length) (hrun : ∀ k < runLength, src[i + k]? = some current) :
    i + runLoop src i current left runLength ≤ src.length ∧
      runLoop src i current left runLength ≤ runLength + left ∧
        ∀ k < runLoop src i current left runLength, src[i + k]? = some current := by
  induction left generalizing runLength with
  | zero => exact ⟨hbound, le_refl _, hrun⟩
  | succ left ih =>
      rw [runLoop]
      split
      next hmore =>
        obtain ⟨hin, hle, hall⟩ := ih (runLength + 1) hmore.1 fun k hk => by
          rcases Nat.lt_succ_iff_lt_or_eq.mp hk with hlt | rfl
          · exact hrun k hlt
          · exact hmore.2
        exact ⟨hin, by omega, hall⟩
      next => exact ⟨hbound, Nat.le_add_right _ _, hrun⟩

/-- A run stays inside the input, fits a byte, and repeats its first byte. -/
theorem runAt_agrees (h : i < src.length) :
    i + runAt src i ≤ src.length ∧ runAt src i ≤ 255 ∧
      ∀ k < runAt src i, src[i + k]? = some (src.getD i 0) := by
  refine runLoop_agrees 254 1 h fun k hk => ?_
  obtain rfl := Nat.lt_one_iff.mp hk
  rw [Nat.add_zero, List.getElem?_eq_getElem h, List.getD_eq_getElem?_getD,
    List.getElem?_eq_getElem h, Option.getD_some]

theorem length_runsFrom_le (h : i ≤ src.length) :
    (runsFrom src i).length ≤ 2 * (src.length - i) := by
  induction hleft : src.length - i using Nat.strong_induction_on generalizing i with
  | _ left ih =>
      rcases Nat.lt_or_eq_of_le h with hmore | rfl
      · have hpos := runAt_pos src i
        have hin := (runAt_agrees hmore).1
        have hrest := ih _ (by omega) hin rfl
        rw [runsFrom_of_lt hmore, List.length_append]
        simp only [List.length_cons, List.length_nil]
        omega
      · rw [runsFrom_of_le le_rfl]
        exact Nat.zero_le _

/-- The encoder stops where its input or its room ends. -/
theorem compressRleLoop_eq {dst : List UInt8}
    (hroom : dst.length + (runsFrom src i).length ≤ dstCapacity) :
    compressRleLoop src dstCapacity i dst = dst ++ runsFrom src i := by
  fun_induction compressRleLoop src dstCapacity i dst with
  | case1 i dst hloop ih =>
      rw [runsFrom_of_lt hloop.1, List.length_append] at hroom
      rw [ih (by rw [List.length_append]; omega), runsFrom_of_lt hloop.1, List.append_assoc]
  | case2 i dst hloop =>
      have hend : src.length ≤ i := by
        by_contra hlt
        rw [runsFrom_of_lt (Nat.lt_of_not_le hlt), List.length_append] at hroom
        simp only [List.length_cons, List.length_nil] at hroom
        omega
      rw [runsFrom_of_le hend, List.append_nil]

/-! ## Reading the runs back -/

theorem fillLoop_run {value : UInt8} (hout : src.length ≤ out.length) (n : Nat)
    (hin : i + n ≤ src.length) (hrun : ∀ k < n, src[i + k]? = some value) :
    fillLoop src.length value n i (filled src out i) = (i + n, filled src out (i + n)) := by
  induction n generalizing i with
  | zero => rfl
  | succ n ih =>
      have hi : i < src.length := by omega
      have hbyte : src.getD i 0 = value := by
        have hfirst := hrun 0 (Nat.succ_pos n)
        rw [Nat.add_zero] at hfirst
        rw [List.getD_eq_getElem?_getD, hfirst, Option.getD_some]
      have hrest : ∀ k < n, src[i + 1 + k]? = some value := by
        intro k hk
        rw [Nat.add_assoc, Nat.add_comm 1 k]
        exact hrun (k + 1) (Nat.succ_lt_succ hk)
      rw [fillLoop, if_pos hi, ← hbyte, filled_set hout hi, hbyte, ih (by omega) hrest,
        Nat.add_assoc, Nat.add_comm 1 n]

theorem decompressRleLoop_runsFrom (hout : src.length ≤ out.length) (hi : i ≤ src.length) :
    decompressRleLoop src.length (runsFrom src i) i (filled src out i) =
      (src.length, filled src out src.length) := by
  induction hleft : src.length - i using Nat.strong_induction_on generalizing i with
  | _ left ih =>
      rcases Nat.lt_or_eq_of_le hi with hmore | rfl
      · have hpos := runAt_pos src i
        obtain ⟨hin, hbyte, hrun⟩ := runAt_agrees hmore
        have hcount : (UInt8.ofNat (runAt src i)).toNat = runAt src i := toNat_byte hbyte
        have hfill := fillLoop_run hout (runAt src i) hin hrun
        rw [runsFrom_of_lt hmore, List.cons_append, List.singleton_append, decompressRleLoop,
          if_pos hmore]
        dsimp only
        rw [hcount, hfill]
        exact ih _ (by omega) hin rfl
      · rw [runsFrom_of_le le_rfl, decompressRleLoop]
        intro count value rest hnil
        cases hnil

/-! ## The round trip -/

theorem compressRle_eq (hne : src ≠ [])
    (hcap : 4 + (runsFrom src 0).length ≤ dstCapacity) :
    compressRle src dstCapacity = leBytes 4 src.length ++ runsFrom src 0 := by
  have hlen : src.length ≠ 0 := by simpa using hne
  rw [compressRle, if_neg (by omega), compressRleLoop_eq]
  rw [length_leBytes]
  exact hcap

/-- A block that was encoded into enough room decodes to the original. -/
theorem rle_roundTrips (src : List UInt8) (hne : src ≠ []) (hlt : src.length < 2 ^ 32)
    (dstCapacity : Nat) (hcap : dstCapacity ≥ 4 + 2 * src.length) (out : List UInt8)
    (hout : src.length ≤ out.length) :
    decompressRle (compressRle src dstCapacity) out =
      (src.length, src ++ out.drop src.length) := by
  have hruns := @length_runsFrom_le src 0 (Nat.zero_le _)
  have hheader : (leBytes 4 src.length ++ runsFrom src 0).take 4 = leBytes 4 src.length :=
    List.take_left' (length_leBytes 4 _)
  have hbody : (leBytes 4 src.length ++ runsFrom src 0).drop 4 = runsFrom src 0 :=
    List.drop_left' (length_leBytes 4 _)
  have hsize : leNat (leBytes 4 src.length) = src.length := by
    rw [leNat_leBytes]
    exact Nat.mod_eq_of_lt hlt
  have hfilled : filled src out src.length = src ++ out.drop src.length := by
    rw [filled, List.take_length]
  rw [compressRle_eq hne (by omega), decompressRle, if_neg (by simp), hheader, hbody, hsize]
  dsimp only
  rw [if_neg (by omega), ← hfilled]
  exact decompressRleLoop_runsFrom hout (Nat.zero_le _)

/-- Three runs, into a buffer with a byte to spare. -/
theorem rle_roundTrips_three_runs :
    decompressRle (compressRle [7, 7, 7, 1, 2, 2] 16) [0, 0, 0, 0, 0, 0, 9] =
      (6, [7, 7, 7, 1, 2, 2, 9]) :=
  rle_roundTrips [7, 7, 7, 1, 2, 2] (by decide) (by decide) 16 (by decide)
    [0, 0, 0, 0, 0, 0, 9] (by decide)

end Storage
end InventixDB
