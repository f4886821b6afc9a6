import Mathlib.Algebra.GroupWithZero.Nat
import Mathlib.Data.List.Basic

/-!
# FlatMemory — bytes at 64-bit addresses

Pieces of memory are filled and copied.  A piece that does not wrap around is what lies between two
addresses.
-/

namespace InventixDB
namespace Lib

/-- The byte at each address. -/
abbrev Bytes : Type :=
  UInt64 → UInt8

namespace Bytes

variable (memory : Bytes)

/-- `memset`: the `n` bytes from `addr` on. -/
def fill (addr n : UInt64) (byte : UInt8) : Bytes :=
  fun a => if a - addr < n then byte else memory a

/-- `memcpy` of pieces that do not overlap. -/
def copy (dst src n : UInt64) : Bytes :=
  fun a => if a - dst < n then memory (src + (a - dst)) else memory a

/-- The `n` bytes from `addr` on are all the same. -/
def all (addr : UInt64) (n : Nat) (byte : UInt8) : Bool :=
  (List.range n).all fun i => memory (addr + UInt64.ofNat i) == byte

variable {memory} {a addr dst src n i : UInt64} {byte : UInt8}

theorem sub_lt_iff (hstop : addr.toNat + n.toNat ≤ 2 ^ 64) :
    a - addr < n ↔ addr.toNat ≤ a.toNat ∧ a.toNat < addr.toNat + n.toNat := by
  have ha := a.toNat_lt
  have haddr := addr.toNat_lt
  rw [UInt64.lt_iff_toNat_lt, UInt64.toNat_sub]
  omega

theorem fill_of_outside (hstop : addr.toNat + n.toNat ≤ 2 ^ 64)
    (hout : a.toNat < addr.toNat ∨ addr.toNat + n.toNat ≤ a.toNat) :
    memory.fill addr n byte a = memory a := by
  refine if_neg fun hin => ?_
  obtain ⟨hlow, hhigh⟩ := (sub_lt_iff hstop).mp hin
  omega

theorem copy_add (hi : i < n) : memory.copy dst src n (dst + i) = memory (src + i) := by
  have hsub : dst + i - dst = i := by
    rw [UInt64.add_comm, UInt64.add_sub_cancel]
  rw [copy, hsub, if_pos hi]

end Bytes
end Lib
end InventixDB
