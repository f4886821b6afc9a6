import Mathlib.Data.Nat.ModEq

/-!
# ByteCodec — fixed-width little-endian integers and exact reads

`leBytes w n` is the `w`-byte image of an unsigned integer in memory order and `leNat` reads one
back.  `readExact` takes a given number of bytes off a stream and fails when the stream is
shorter; each writer is undone by its reader in front of any rest (`readLE_append`).
-/

namespace InventixDB
namespace Lib
namespace ByteCodec

/-! ## Little-endian integers -/

/-- The `w` low bytes of `n`, least significant first. -/
def leBytes : Nat → Nat → List UInt8
  | 0, _ => []
  | w + 1, n => UInt8.ofNat n :: leBytes w (n / 256)

/-- The unsigned integer with these bytes. -/
def leNat (bs : List UInt8) : Nat :=
  bs.foldr (fun b n => b.toNat + 256 * n) 0

@[simp]
theorem length_leBytes (w n : Nat) : (leBytes w n).length = w := by
  induction w generalizing n with
  | zero => rfl
  | succ w ih => simp [leBytes, ih]

theorem leNat_leBytes (w n : Nat) : leNat (leBytes w n) = n % 256 ^ w := by
  induction w generalizing n with
  | zero => simp [leBytes, leNat, Nat.mod_one]
  | succ w ih =>
      have hstep : leNat (leBytes (w + 1) n) = n % 256 + 256 * leNat (leBytes w (n / 256)) := by
        simp [leBytes, leNat]
      rw [hstep, ih, pow_succ', Nat.mod_mul]

theorem leBytes_leNat (bs : List UInt8) : leBytes bs.length (leNat bs) = bs := by
  induction bs with
  | nil => rfl
  | cons b bs ih =>
      have hb := b.toNat_lt
      have hstep : leNat (b :: bs) = b.toNat + 256 * leNat bs := by simp [leNat]
      have hrest : (b.toNat + 256 * leNat bs) / 256 = leNat bs := by omega
      have hbyte : UInt8.ofNat (b.toNat + 256 * leNat bs) = b := by
        refine UInt8.toNat_inj.mp ?_
        rw [UInt8.toNat_ofNat']
        omega
      rw [List.length_cons, leBytes, hstep, hrest, ih, hbyte]

theorem leBytes_mod (w n : Nat) : leBytes w (n % 256 ^ w) = leBytes w n := by
  have hread := leBytes_leNat (leBytes w n)
  rwa [length_leBytes, leNat_leBytes] at hread

/-! ## Reading off a stream -/

/-- The next `n` bytes and the rest, if the stream has that many. -/
def readExact (n : Nat) (bs : List UInt8) : Option (List UInt8 × List UInt8) :=
  if n ≤ bs.length then some (bs.take n, bs.drop n) else none

/-- A `w`-byte integer and the rest. -/
def readLE (w : Nat) (bs : List UInt8) : Option (Nat × List UInt8) :=
  (readExact w bs).map fun r => (leNat r.1, r.2)

theorem readExact_append (l rest : List UInt8) :
    readExact l.length (l ++ rest) = some (l, rest) := by
  simp [readExact]

theorem length_readExact {n : Nat} {bs : List UInt8} {r : List UInt8 × List UInt8}
    (h : readExact n bs = some r) : bs.length = n + r.2.length := by
  rw [readExact] at h
  split at h
  · next hle =>
      rw [← Option.some_inj.mp h, List.length_drop]
      omega
  · cases h

theorem length_readLE {w : Nat} {bs : List UInt8} {r : Nat × List UInt8}
    (h : readLE w bs = some r) : bs.length = w + r.2.length := by
  obtain ⟨r', hr, rfl⟩ := Option.map_eq_some_iff.mp h
  exact length_readExact hr

theorem readLE_append {w n : Nat} (hn : n < 256 ^ w) (rest : List UInt8) :
    readLE w (leBytes w n ++ rest) = some (n, rest) := by
  have hread := readExact_append (leBytes w n) rest
  rw [length_leBytes] at hread
  rw [readLE, hread, Option.map_some, leNat_leBytes, Nat.mod_eq_of_lt hn]

theorem readExact_eq_some {n : Nat} {bs l rest : List UInt8} :
    readExact n bs = some (l, rest) ↔ l.length = n ∧ bs = l ++ rest := by
  constructor
  · intro hread
    rw [readExact, Option.ite_none_right_eq_some] at hread
    obtain ⟨hle, hread⟩ := hread
    cases hread
    exact ⟨List.length_take_of_le hle, (List.take_append_drop n bs).symm⟩
  · rintro ⟨rfl, rfl⟩
    exact readExact_append l rest

theorem readLE_eq_some {w n : Nat} {bs rest : List UInt8} :
    readLE w bs = some (n, rest) ↔ n < 256 ^ w ∧ bs = leBytes w n ++ rest := by
  constructor
  · intro hread
    obtain ⟨⟨l, rest'⟩, hexact, heq⟩ := Option.map_eq_some_iff.mp hread
    obtain ⟨hlen, rfl⟩ := readExact_eq_some.mp hexact
    cases heq
    have hbytes := leBytes_leNat l
    have hlt := leNat_leBytes w (leNat l)
    rw [hlen] at hbytes
    rw [hbytes] at hlt
    refine ⟨?_, by rw [hbytes]⟩
    rw [hlt]
    exact Nat.mod_lt _ (Nat.pow_pos (by decide))
  · rintro ⟨hn, rfl⟩
    exact readLE_append hn rest

end ByteCodec
end Lib
end InventixDB
