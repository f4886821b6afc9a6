import Mathlib.Data.List.Basic
import Mathlib.Data.Nat.Bitwise

/-!
# Crc — cyclic redundancy checks

A register of `w` bits shifts right and takes the polynomial back in when a one falls out.  Nothing
the register has seen is forgotten while the polynomial's highest coefficient is set, and two
messages that differ in one stretch of at most `w` bits leave different registers.
-/

namespace InventixDB
namespace Lib
namespace Crc

variable {w : Nat}

/-! ## The register -/

/-- The register after one shift. -/
def shift (poly s : BitVec w) : BitVec w :=
  if s.getLsbD 0 then (s >>> 1) ^^^ poly else s >>> 1

/-- `n` shifts. -/
def shifts (poly : BitVec w) : Nat → BitVec w → BitVec w
  | 0, s => s
  | n + 1, s => shifts poly n (shift poly s)

/-- A bit as the lowest of a register. -/
def lowBit (bit : Bool) : BitVec w :=
  if bit then 1 else 0

/-- The register after the bits of a message. -/
def run (poly : BitVec w) (s : BitVec w) (bits : List Bool) : BitVec w :=
  bits.foldl (fun s bit => shift poly (s ^^^ lowBit bit)) s

/-- The bits as a number, the first lowest. -/
def ofBits : List Bool → BitVec w
  | [] => 0
  | bit :: bits => lowBit bit ^^^ (ofBits bits <<< 1)

variable {poly : BitVec w}

theorem shift_xor (a b : BitVec w) : shift poly (a ^^^ b) = shift poly a ^^^ shift poly b := by
  unfold shift
  rw [BitVec.getLsbD_xor, BitVec.ushiftRight_xor_distrib]
  cases a.getLsbD 0 with
  | false =>
      cases b.getLsbD 0 with
      | false => rfl
      | true => simp only [Bool.false_xor, if_true, Bool.false_eq_true, if_false, BitVec.xor_assoc]
  | true =>
      cases b.getLsbD 0 with
      | false =>
          simp only [Bool.xor_false, if_true, Bool.false_eq_true, if_false, BitVec.xor_assoc,
            BitVec.xor_comm poly]
      | true =>
          have hcancel : (a >>> 1 ^^^ poly) ^^^ (b >>> 1 ^^^ poly) =
              (a >>> 1 ^^^ b >>> 1) ^^^ (poly ^^^ poly) := by ac_rfl
          simp only [Bool.xor_self, Bool.false_eq_true, if_false, if_true]
          rw [hcancel, BitVec.xor_self, BitVec.xor_zero]

theorem shifts_xor (n : Nat) (a b : BitVec w) :
    shifts poly n (a ^^^ b) = shifts poly n a ^^^ shifts poly n b := by
  induction n generalizing a b with
  | zero => rfl
  | succ n ih => rw [shifts, shifts, shifts, shift_xor, ih]

/-! ## Nothing is forgotten -/

/-- Only the empty register shifts to the empty register. -/
theorem eq_zero_of_shift (hpoly : poly.getLsbD (w - 1) = true) {s : BitVec w}
    (hs : shift poly s = 0) : s = 0 := by
  have hw : 0 < w := by
    by_contra hw
    rw [BitVec.getLsbD_of_ge poly _ (by omega)] at hpoly
    cases hpoly
  unfold shift at hs
  have hlow : s.getLsbD 0 = false := by
    cases hbit : s.getLsbD 0 with
    | false => rfl
    | true =>
        rw [hbit, if_pos rfl] at hs
        have htop := congrArg (BitVec.getLsbD · (w - 1)) hs
        simp only [BitVec.getLsbD_xor, BitVec.getLsbD_ushiftRight, hpoly] at htop
        rw [BitVec.getLsbD_of_ge s _ (by omega)] at htop
        simp at htop
  rw [hlow] at hs
  refine BitVec.eq_of_getLsbD_eq fun i hi => ?_
  cases i with
  | zero => rw [hlow]; simp
  | succ i =>
      have hbit := congrArg (BitVec.getLsbD · i) hs
      simpa [Nat.add_comm] using hbit

theorem shift_injective (hpoly : poly.getLsbD (w - 1) = true) :
    Function.Injective (shift poly) := by
  intro a b hab
  have hzero : shift poly (a ^^^ b) = 0 := by
    rw [shift_xor, hab, BitVec.xor_self]
    rfl
  exact BitVec.xor_eq_zero_iff.mp (eq_zero_of_shift hpoly hzero)

theorem shifts_injective (hpoly : poly.getLsbD (w - 1) = true) (n : Nat) :
    Function.Injective (shifts poly n) := by
  induction n with
  | zero => exact Function.injective_id
  | succ n ih => exact fun a b hab => shift_injective hpoly (ih hab)

theorem run_append (s : BitVec w) (xs ys : List Bool) :
    run poly s (xs ++ ys) = run poly (run poly s xs) ys :=
  List.foldl_append

/-- Registers that differ still differ after the same bits. -/
theorem run_injective (hpoly : poly.getLsbD (w - 1) = true) (bits : List Bool) :
    Function.Injective (run poly · bits) := by
  induction bits with
  | nil => exact Function.injective_id
  | cons bit bits ih =>
      intro a b hab
      have hshift : shift poly (a ^^^ lowBit bit) = shift poly (b ^^^ lowBit bit) := ih hab
      exact (BitVec.xor_left_inj _).mp (shift_injective hpoly hshift)

/-! ## Short messages -/

theorem getLsbD_lowBit_succ (bit : Bool) (i : Nat) :
    (lowBit bit : BitVec w).getLsbD (i + 1) = false := by
  unfold lowBit
  cases bit with
  | false => simp
  | true => simp [BitVec.getLsbD_one]

/-- The bits of a message are those of its number. -/
theorem getLsbD_ofBits {bits : List Bool} (hlen : bits.length ≤ w) (i : Nat) :
    (ofBits bits : BitVec w).getLsbD i = bits.getD i false := by
  induction bits generalizing i with
  | nil => simp [ofBits]
  | cons bit bits ih =>
      have hlen' : bits.length < w := hlen
      have hw : 0 < w := Nat.lt_of_le_of_lt (Nat.zero_le _) hlen'
      rw [ofBits, BitVec.getLsbD_xor]
      cases i with
      | zero =>
          cases bit with
          | false => simp [lowBit]
          | true => simp [lowBit, hw]
      | succ i =>
          rw [getLsbD_lowBit_succ, Bool.false_xor, BitVec.getLsbD_shiftLeft, Nat.add_sub_cancel,
            ih (Nat.le_of_lt hlen'), List.getD_cons_succ]
          by_cases hi : i + 1 < w
          · simp [hi]
          · rw [List.getD_eq_default _ _ (by omega)]
            simp

/-- A message of at most `w` bits is a number put into the register before the shifts. -/
theorem run_eq_shifts {bits : List Bool} (hlen : bits.length ≤ w) (s : BitVec w) :
    run poly s bits = shifts poly bits.length (s ^^^ ofBits bits) := by
  induction bits generalizing s with
  | nil => exact (BitVec.xor_zero (x := s)).symm
  | cons bit bits ih =>
      have hlen' : bits.length < w := hlen
      -- the later bits come one place down without any being lost
      have hrest : shift poly (ofBits bits <<< 1) = ofBits bits := by
        have hlow : (ofBits bits <<< 1 : BitVec w).getLsbD 0 = false := by simp
        unfold shift
        rw [hlow]
        refine BitVec.eq_of_getLsbD_eq fun i hi => ?_
        simp only [Bool.false_eq_true, if_false, BitVec.getLsbD_ushiftRight,
          BitVec.getLsbD_shiftLeft, Nat.add_sub_cancel_left]
        by_cases hnext : 1 + i < w
        · simp [hnext]
        · rw [getLsbD_ofBits (Nat.le_of_lt hlen'), List.getD_eq_default _ _ (by omega)]
          simp
      change run poly (shift poly (s ^^^ lowBit bit)) bits = _
      rw [ih (Nat.le_of_lt hlen'), List.length_cons, shifts, ofBits, ← BitVec.xor_assoc,
        shift_xor _ (ofBits bits <<< 1), hrest]

theorem ofBits_injective {xs ys : List Bool} (hlen : xs.length = ys.length)
    (hle : xs.length ≤ w) (heq : (ofBits xs : BitVec w) = ofBits ys) : xs = ys := by
  refine List.ext_getElem hlen fun i hx hy => ?_
  have hbit := congrArg (BitVec.getLsbD · i) heq
  simp only [getLsbD_ofBits hle, getLsbD_ofBits (hlen ▸ hle)] at hbit
  rwa [List.getD_eq_getElem _ _ hx, List.getD_eq_getElem _ _ hy] at hbit

/-! ## Bursts -/

/-- Messages that agree outside one stretch of at most `w` bits leave the same register only if
they agree there too. -/
theorem run_burst_iff (hpoly : poly.getLsbD (w - 1) = true) (s : BitVec w)
    (before after : List Bool) {xs ys : List Bool} (hlen : xs.length = ys.length)
    (hle : xs.length ≤ w) :
    run poly s (before ++ xs ++ after) = run poly s (before ++ ys ++ after) ↔ xs = ys := by
  constructor
  · intro heq
    simp only [run_append] at heq
    -- the bits behind the stretch make no two registers equal
    have hburst : run poly (run poly s before) xs = run poly (run poly s before) ys :=
      run_injective hpoly after heq
    have hle' : ys.length ≤ w := hlen ▸ hle
    rw [run_eq_shifts hle, run_eq_shifts hle', hlen] at hburst
    have hxor := shifts_injective hpoly ys.length hburst
    exact ofBits_injective hlen hle ((BitVec.xor_right_inj _).mp hxor)
  · rintro rfl
    rfl

/-! ## Bytes at a time -/

/-- The bits of a byte, the lowest first. -/
def byteBits (byte : BitVec 8) : List Bool :=
  (List.range 8).map byte.getLsbD

theorem length_byteBits (byte : BitVec 8) : (byteBits byte).length = 8 := by
  simp [byteBits]

/-- While only zeroes fall out the register just shifts. -/
theorem shifts_eq_ushiftRight {n : Nat} {s : BitVec w} (hlow : ∀ i < n, s.getLsbD i = false) :
    shifts poly n s = s >>> n := by
  induction n generalizing s with
  | zero => exact (BitVec.ushiftRight_zero s).symm
  | succ n ih =>
      have hshift : shift poly s = s >>> 1 := by
        unfold shift
        rw [hlow 0 (Nat.succ_pos n)]
        rfl
      rw [shifts, hshift, ih fun i hi => ?_, ← BitVec.shiftRight_add, Nat.add_comm]
      rw [BitVec.getLsbD_ushiftRight, Nat.add_comm]
      exact hlow (i + 1) (Nat.succ_lt_succ hi)

/-- The lowest eight bits. -/
def lowByte : BitVec w :=
  (BitVec.allOnes 8).setWidth w

theorem getLsbD_lowByte {i : Nat} (hi : i < w) :
    (lowByte : BitVec w).getLsbD i = decide (i < 8) := by
  rw [lowByte, BitVec.getLsbD_setWidth, BitVec.getLsbD_allOnes, decide_eq_true hi, Bool.true_and]

/-- One byte through a table of 256 registers. -/
def tableStep (poly : BitVec w) (s : BitVec w) (byte : BitVec 8) : BitVec w :=
  (s >>> 8) ^^^ shifts poly 8 ((s ^^^ byte.setWidth w) &&& lowByte)

/-- The table does what eight bits do. -/
theorem tableStep_eq_run (hw : 8 ≤ w) (s : BitVec w) (byte : BitVec 8) :
    tableStep poly s byte = run poly s (byteBits byte) := by
  have hlen : (byteBits byte).length ≤ w := by
    rw [length_byteBits]
    exact hw
  have hbyte : (ofBits (byteBits byte) : BitVec w) = byte.setWidth w := by
    refine BitVec.eq_of_getLsbD_eq fun i hi => ?_
    rw [getLsbD_ofBits hlen, BitVec.getLsbD_setWidth]
    by_cases h8 : i < 8
    · simp [byteBits, h8, hi]
    · rw [List.getD_eq_default _ _ (by rw [length_byteBits]; omega),
        BitVec.getLsbD_of_ge byte i (by omega)]
      simp
  -- the low byte goes through the table and the rest moves down
  have hsplit : s ^^^ byte.setWidth w =
      ((s ^^^ byte.setWidth w) &&& lowByte) ^^^ (s &&& ~~~lowByte) := by
    refine BitVec.eq_of_getLsbD_eq fun i hi => ?_
    simp only [BitVec.getLsbD_xor, BitVec.getLsbD_and, BitVec.getLsbD_not, getLsbD_lowByte hi,
      BitVec.getLsbD_setWidth, hi, decide_true, Bool.true_and]
    by_cases h8 : i < 8
    · simp [h8]
    · simp [h8, BitVec.getLsbD_of_ge byte i (by omega)]
  have hhigh : shifts poly 8 (s &&& ~~~lowByte) = s >>> 8 := by
    rw [shifts_eq_ushiftRight fun i hi => ?_]
    · refine BitVec.eq_of_getLsbD_eq fun i hi => ?_
      simp only [BitVec.getLsbD_ushiftRight, BitVec.getLsbD_and, BitVec.getLsbD_not]
      by_cases hin : 8 + i < w
      · rw [getLsbD_lowByte hin]
        simp [hin]
      · simp [BitVec.getLsbD_of_ge s (8 + i) (by omega)]
    · rw [BitVec.getLsbD_and, BitVec.getLsbD_not, getLsbD_lowByte (by omega)]
      simp [hi]
  rw [run_eq_shifts hlen, length_byteBits, hbyte, hsplit, shifts_xor, hhigh, tableStep,
    BitVec.xor_comm]

/-- The register after bytes, each through the table. -/
theorem foldl_tableStep (hw : 8 ≤ w) (s : BitVec w) (bytes : List (BitVec 8)) :
    bytes.foldl (tableStep poly) s = run poly s (bytes.flatMap byteBits) := by
  induction bytes generalizing s with
  | nil => rfl
  | cons byte bytes ih =>
      rw [List.foldl_cons, ih, tableStep_eq_run hw, List.flatMap_cons, run_append]

end Crc
end Lib
end InventixDB
