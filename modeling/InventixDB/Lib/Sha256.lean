import Mathlib.Data.List.Basic
import Mathlib.Data.Nat.Bits
import Mathlib.Tactic.Ring

/-!
# Sha256 — the hash of FIPS 180-4

A message is a string of bits.  It is padded to blocks of 512 bits, and the blocks are mixed one
after the other into eight words of 32 bits, which are the digest.
-/

namespace InventixDB
namespace Lib
namespace Sha256

abbrev Word := BitVec 32

/-! ## Bits and numbers -/

/-- The number a string of bits stands for, the first bit the highest. -/
def ofBits (bits : List Bool) : Nat :=
  bits.foldl (fun n b => 2 * n + b.toNat) 0

/-- The low `w` bits of a number, the highest first. -/
def toBits : Nat → Nat → List Bool
  | 0, _ => []
  | w + 1, n => n.testBit w :: toBits w n

def toWord (bits : List Bool) : Word :=
  BitVec.ofNat 32 (ofBits bits)

/-! ## Functions and constants -/

def ch (x y z : Word) : Word :=
  (x &&& y) ^^^ (~~~x &&& z)

def maj (x y z : Word) : Word :=
  (x &&& y) ^^^ (x &&& z) ^^^ (y &&& z)

def bigSigma0 (x : Word) : Word :=
  x.rotateRight 2 ^^^ x.rotateRight 13 ^^^ x.rotateRight 22

def bigSigma1 (x : Word) : Word :=
  x.rotateRight 6 ^^^ x.rotateRight 11 ^^^ x.rotateRight 25

def sigma0 (x : Word) : Word :=
  x.rotateRight 7 ^^^ x.rotateRight 18 ^^^ x >>> 3

def sigma1 (x : Word) : Word :=
  x.rotateRight 17 ^^^ x.rotateRight 19 ^^^ x >>> 10

/-- The first 32 bits of the fractional parts of the cube roots of the first 64 primes. -/
def constants : List Word :=
  [0x428a2f98, 0x71374491, 0xb5c0fbcf, 0xe9b5dba5, 0x3956c25b, 0x59f111f1, 0x923f82a4, 0xab1c5ed5,
    0xd807aa98, 0x12835b01, 0x243185be, 0x550c7dc3, 0x72be5d74, 0x80deb1fe, 0x9bdc06a7, 0xc19bf174,
    0xe49b69c1, 0xefbe4786, 0x0fc19dc6, 0x240ca1cc, 0x2de92c6f, 0x4a7484aa, 0x5cb0a9dc, 0x76f988da,
    0x983e5152, 0xa831c66d, 0xb00327c8, 0xbf597fc7, 0xc6e00bf3, 0xd5a79147, 0x06ca6351, 0x14292967,
    0x27b70a85, 0x2e1b2138, 0x4d2c6dfc, 0x53380d13, 0x650a7354, 0x766a0abb, 0x81c2c92e, 0x92722c85,
    0xa2bfe8a1, 0xa81a664b, 0xc24b8b70, 0xc76c51a3, 0xd192e819, 0xd6990624, 0xf40e3585, 0x106aa070,
    0x19a4c116, 0x1e376c08, 0x2748774c, 0x34b0bcb5, 0x391c0cb3, 0x4ed8aa4a, 0x5b9cca4f, 0x682e6ff3,
    0x748f82ee, 0x78a5636f, 0x84c87814, 0x8cc70208, 0x90befffa, 0xa4506ceb, 0xbef9a3f7, 0xc67178f2]

/-- The eight words of a hash value, and the working variables. -/
structure State where
  a : Word
  b : Word
  c : Word
  d : Word
  e : Word
  f : Word
  g : Word
  h : Word

/-- The same of the square roots of the first eight primes. -/
def initial : State where
  a := 0x6a09e667
  b := 0xbb67ae85
  c := 0x3c6ef372
  d := 0xa54ff53a
  e := 0x510e527f
  f := 0x9b05688c
  g := 0x1f83d9ab
  h := 0x5be0cd19

/-! ## Padding -/

/-- How many zeros stand behind the one bit. -/
def zeros (l : Nat) : Nat :=
  (959 - l % 512) % 512

def pad (message : List Bool) : List Bool :=
  message ++
    true :: (List.replicate (zeros message.length) false ++ toBits 64 message.length)

/-! ## Blocks -/

/-- `W_t` -/
def schedule (block : List Bool) (t : Nat) : Word :=
  if t < 16 then toWord ((block.drop (32 * t)).take 32)
  else
    sigma1 (schedule block (t - 2)) + schedule block (t - 7) + sigma0 (schedule block (t - 15)) +
      schedule block (t - 16)

def round (block : List Bool) (s : State) (t : Nat) : State :=
  let t₁ := s.h + bigSigma1 s.e + ch s.e s.f s.g + constants.getD t 0 + schedule block t
  let t₂ := bigSigma0 s.a + maj s.a s.b s.c
  { a := t₁ + t₂, b := s.a, c := s.b, d := s.c, e := s.d + t₁, f := s.e, g := s.f, h := s.g }

def compress (s : State) (block : List Bool) : State :=
  let r := (List.range 64).foldl (round block) s
  { a := s.a + r.a, b := s.b + r.b, c := s.c + r.c, d := s.d + r.d
    e := s.e + r.e, f := s.f + r.f, g := s.g + r.g, h := s.h + r.h }

/-- The first `n` blocks of the bits. -/
def absorb : Nat → State → List Bool → State
  | 0, s, _ => s
  | n + 1, s, bits => absorb n (compress s (bits.take 512)) (bits.drop 512)

def digest (s : State) : List Bool :=
  [s.a, s.b, s.c, s.d, s.e, s.f, s.g, s.h].flatMap fun w => toBits 32 w.toNat

def sha256 (message : List Bool) : List Bool :=
  digest (absorb ((pad message).length / 512) initial (pad message))

/-! ## Bits -/

@[simp]
theorem length_toBits (w n : Nat) : (toBits w n).length = w := by
  induction w with
  | zero => rfl
  | succ w ih => rw [toBits, List.length_cons, ih]

theorem foldl_bits (n : Nat) (bits : List Bool) :
    bits.foldl (fun n b => 2 * n + b.toNat) n = n * 2 ^ bits.length + ofBits bits := by
  unfold ofBits
  induction bits generalizing n with
  | nil => simp
  | cons b bits ih =>
      rw [List.foldl_cons, List.foldl_cons, ih (2 * n + b.toNat), ih (2 * 0 + b.toNat),
        List.length_cons]
      ring

theorem ofBits_append (bits bits' : List Bool) :
    ofBits (bits ++ bits') = ofBits bits * 2 ^ bits'.length + ofBits bits' := by
  rw [ofBits, List.foldl_append, foldl_bits]
  rfl

theorem ofBits_cons (b : Bool) (bits : List Bool) :
    ofBits (b :: bits) = b.toNat * 2 ^ bits.length + ofBits bits := by
  rw [ofBits, List.foldl_cons, foldl_bits, Nat.mul_zero, Nat.zero_add]

theorem ofBits_toBits (w n : Nat) : ofBits (toBits w n) = n % 2 ^ w := by
  induction w with
  | zero => simp [toBits, ofBits, Nat.mod_one]
  | succ w ih =>
      rw [toBits, ofBits_cons, length_toBits, ih, Nat.mod_pow_succ, Nat.toNat_testBit,
        Nat.add_comm, Nat.mul_comm]

/-- The bits of a number of two parts. -/
theorem toBits_add (v w n : Nat) : toBits (v + w) n = toBits v (n / 2 ^ w) ++ toBits w n := by
  induction v with
  | zero => simp [toBits]
  | succ v ih =>
      rw [Nat.add_right_comm, toBits, ih, toBits, List.cons_append, Nat.testBit_div_two_pow]

theorem toBits_mod {w v : Nat} (h : v ≤ w) (n : Nat) : toBits v (n % 2 ^ w) = toBits v n := by
  induction v with
  | zero => rfl
  | succ v ih => rw [toBits, toBits, ih (by omega), Nat.testBit_mod_two_pow]; simp; omega

theorem toBits_zero (w : Nat) : toBits w 0 = List.replicate w false := by
  induction w with
  | zero => rfl
  | succ w ih => rw [toBits, ih, Nat.zero_testBit, List.replicate_succ]

end Sha256
end Lib
end InventixDB
