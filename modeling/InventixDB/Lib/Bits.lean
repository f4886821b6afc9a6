import Mathlib.Data.List.Basic
import Mathlib.Data.Nat.Bitwise

/-!
# Bits — a list of bytes as an array of bits

Bit `i` stands in byte `i / 8`, the lowest bit of a byte first.
-/

namespace InventixDB
namespace Lib

/-! ## One byte -/

/-- The byte whose only bit is bit `k`. -/
def bitMask (k : Nat) : UInt8 :=
  1 <<< UInt8.ofNat k

def hasBit (b : UInt8) (k : Nat) : Bool :=
  b &&& bitMask k != 0

theorem toNat_bitMask {k : Nat} (hk : k < 8) : (bitMask k).toNat = 2 ^ k := by
  have hpow : 2 ^ k < 2 ^ 8 := Nat.pow_lt_pow_right (by decide) hk
  rw [bitMask, UInt8.toNat_shiftLeft, UInt8.toNat_ofNat',
    Nat.mod_eq_of_lt (show k < 2 ^ 8 by omega),
    Nat.mod_eq_of_lt hk, Nat.shiftLeft_eq]
  change 1 * 2 ^ k % 2 ^ 8 = 2 ^ k
  rw [Nat.one_mul, Nat.mod_eq_of_lt hpow]

theorem hasBit_eq_testBit (b : UInt8) {k : Nat} (hk : k < 8) : hasBit b k = b.toNat.testBit k := by
  have hne : b &&& bitMask k ≠ 0 ↔ b.toNat &&& 2 ^ k ≠ 0 := by
    rw [← toNat_bitMask hk, ← UInt8.toNat_and, Ne, Ne, ← UInt8.toNat_inj]
    rfl
  rw [Bool.eq_iff_iff, hasBit, bne_iff_ne, hne, Nat.and_two_pow]
  cases b.toNat.testBit k with
  | true => simp
  | false => simp

theorem hasBit_or_bitMask (b : UInt8) {k l : Nat} (hk : k < 8) (hl : l < 8) :
    hasBit (b ||| bitMask k) l = (hasBit b l || decide (k = l)) := by
  rw [hasBit_eq_testBit _ hl, hasBit_eq_testBit _ hl, UInt8.toNat_or, toNat_bitMask hk,
    Nat.testBit_or, Nat.testBit_two_pow]

/-! ## The whole array -/

/-- Bit `i`; there is none behind the last byte. -/
def bitAt (bs : List UInt8) (i : Nat) : Option Bool :=
  (bs[i / 8]?).map fun b => hasBit b (i % 8)

/-- Set bit `i`, if there is one. -/
def setBit (bs : List UInt8) (i : Nat) : Option (List UInt8) :=
  (bs[i / 8]?).map fun b => bs.set (i / 8) (b ||| bitMask (i % 8))

variable {bs after : List UInt8} {i j : Nat}

theorem div_eight_lt_iff {n : Nat} : i / 8 < n ↔ i < n * 8 :=
  Nat.div_lt_iff_lt_mul (by decide)

theorem exists_setBit (hi : i < bs.length * 8) : ∃ after, setBit bs i = some after := by
  rw [setBit, List.getElem?_eq_getElem (div_eight_lt_iff.mpr hi)]
  exact ⟨_, rfl⟩

theorem exists_bitAt (hi : i < bs.length * 8) : ∃ bit, bitAt bs i = some bit := by
  rw [bitAt, List.getElem?_eq_getElem (div_eight_lt_iff.mpr hi)]
  exact ⟨_, rfl⟩

theorem length_of_setBit (hset : setBit bs i = some after) : after.length = bs.length := by
  obtain ⟨b, -, rfl⟩ := Option.map_eq_some_iff.mp hset
  exact List.length_set

/-- A set bit reads as set, and every other bit as before. -/
theorem bitAt_of_setBit (hset : setBit bs i = some after) :
    bitAt after j = (bitAt bs j).map (· || decide (i = j)) := by
  obtain ⟨b, hb, rfl⟩ := Option.map_eq_some_iff.mp hset
  have hk : i % 8 < 8 := Nat.mod_lt _ (by decide)
  have hl : j % 8 < 8 := Nat.mod_lt _ (by decide)
  by_cases hbyte : i / 8 = j / 8
  · have heq : i = j ↔ i % 8 = j % 8 := by omega
    have hlt : j / 8 < bs.length := hbyte ▸ (List.getElem?_eq_some_iff.mp hb).1
    rw [bitAt, bitAt, hbyte, List.getElem?_set_self hlt, ← hbyte, hb]
    simp only [Option.map_some, hasBit_or_bitMask b hk hl, heq]
  · have hne : i ≠ j := fun heq => hbyte (congrArg (· / 8) heq)
    rw [bitAt, bitAt, List.getElem?_set_ne hbyte]
    simp only [hne, decide_false, Bool.or_false, Option.map_id']

/-! ## Several bits -/

variable {indices : List Nat}

theorem exists_setBits (hin : ∀ i ∈ indices, i < bs.length * 8) :
    ∃ after, indices.foldlM setBit bs = some after := by
  induction indices generalizing bs with
  | nil => exact ⟨bs, rfl⟩
  | cons i indices ih =>
      obtain ⟨next, hnext⟩ := exists_setBit (hin i List.mem_cons_self)
      rw [List.foldlM_cons, hnext]
      refine ih fun j hj => ?_
      rw [length_of_setBit hnext]
      exact hin j (List.mem_cons_of_mem i hj)

theorem length_of_setBits (hset : indices.foldlM setBit bs = some after) :
    after.length = bs.length := by
  induction indices generalizing bs with
  | nil =>
      cases hset
      rfl
  | cons i indices ih =>
      rw [List.foldlM_cons] at hset
      obtain ⟨next, hnext, hrest⟩ := Option.bind_eq_some_iff.mp hset
      exact (ih hrest).trans (length_of_setBit hnext)

theorem bitAt_of_setBits (hset : indices.foldlM setBit bs = some after) :
    bitAt after j = (bitAt bs j).map (· || decide (j ∈ indices)) := by
  induction indices generalizing bs with
  | nil =>
      cases hset
      simp only [List.not_mem_nil, decide_false, Bool.or_false, Option.map_id']
  | cons i indices ih =>
      rw [List.foldlM_cons] at hset
      obtain ⟨next, hnext, hrest⟩ := Option.bind_eq_some_iff.mp hset
      rw [ih hrest, bitAt_of_setBit hnext, Option.map_map]
      congr 1
      funext bit
      simp only [Function.comp, List.mem_cons, Bool.decide_or, Bool.or_assoc, eq_comm (a := i)]

/-- Whether all the bits are set; the first one that is not ends the reading. -/
def allSet (bs : List UInt8) : List Nat → Option Bool
  | [] => some true
  | i :: indices =>
      match bitAt bs i with
      | none => none
      | some true => allSet bs indices
      | some false => some false

theorem allSet_eq (hin : ∀ i ∈ indices, i < bs.length * 8) :
    allSet bs indices = some (decide (∀ i ∈ indices, bitAt bs i = some true)) := by
  induction indices with
  | nil => simp [allSet]
  | cons i indices ih =>
      obtain ⟨bit, hbit⟩ := exists_bitAt (hin i List.mem_cons_self)
      have hrest := ih fun j hj => hin j (List.mem_cons_of_mem i hj)
      simp only [allSet, hbit, List.forall_mem_cons]
      cases bit with
      | true => simp [hrest]
      | false => simp

end Lib
end InventixDB
