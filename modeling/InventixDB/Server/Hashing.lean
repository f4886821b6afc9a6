import InventixDB.Lib.ByteCodec
import InventixDB.Lib.Sha256
import Mathlib.Data.List.GetD

/-!
# Hashing — the hash function under the stored passwords

`sha256` of `security.c` works on bytes and mixes the blocks as they come; only the last one or two
are padded, in a buffer of their own.
-/

namespace InventixDB
namespace Server

open Lib

namespace Hashing

/-! ## Macros -/

def rotr (x n : UInt32) : UInt32 :=
  x >>> n ||| x <<< (32 - n)

def ch (x y z : UInt32) : UInt32 :=
  (x &&& y) ^^^ (~~~x &&& z)

def maj (x y z : UInt32) : UInt32 :=
  (x &&& y) ^^^ (x &&& z) ^^^ (y &&& z)

def ep0 (x : UInt32) : UInt32 :=
  rotr x 2 ^^^ rotr x 13 ^^^ rotr x 22

def ep1 (x : UInt32) : UInt32 :=
  rotr x 6 ^^^ rotr x 11 ^^^ rotr x 25

def sig0 (x : UInt32) : UInt32 :=
  rotr x 7 ^^^ rotr x 18 ^^^ x >>> 3

def sig1 (x : UInt32) : UInt32 :=
  rotr x 17 ^^^ rotr x 19 ^^^ x >>> 10

def sha256K : List UInt32 :=
  [0x428a2f98, 0x71374491, 0xb5c0fbcf, 0xe9b5dba5, 0x3956c25b, 0x59f111f1, 0x923f82a4, 0xab1c5ed5,
    0xd807aa98, 0x12835b01, 0x243185be, 0x550c7dc3, 0x72be5d74, 0x80deb1fe, 0x9bdc06a7, 0xc19bf174,
    0xe49b69c1, 0xefbe4786, 0x0fc19dc6, 0x240ca1cc, 0x2de92c6f, 0x4a7484aa, 0x5cb0a9dc, 0x76f988da,
    0x983e5152, 0xa831c66d, 0xb00327c8, 0xbf597fc7, 0xc6e00bf3, 0xd5a79147, 0x06ca6351, 0x14292967,
    0x27b70a85, 0x2e1b2138, 0x4d2c6dfc, 0x53380d13, 0x650a7354, 0x766a0abb, 0x81c2c92e, 0x92722c85,
    0xa2bfe8a1, 0xa81a664b, 0xc24b8b70, 0xc76c51a3, 0xd192e819, 0xd6990624, 0xf40e3585, 0x106aa070,
    0x19a4c116, 0x1e376c08, 0x2748774c, 0x34b0bcb5, 0x391c0cb3, 0x4ed8aa4a, 0x5b9cca4f, 0x682e6ff3,
    0x748f82ee, 0x78a5636f, 0x84c87814, 0x8cc70208, 0x90befffa, 0xa4506ceb, 0xbef9a3f7, 0xc67178f2]

/-! ## Blocks -/

/-- `state`, and the working variables `a` to `h`. -/
structure Sha256State where
  a : UInt32
  b : UInt32
  c : UInt32
  d : UInt32
  e : UInt32
  f : UInt32
  g : UInt32
  h : UInt32

def initialState : Sha256State where
  a := 0x6a09e667
  b := 0xbb67ae85
  c := 0x3c6ef372
  d := 0xa54ff53a
  e := 0x510e527f
  f := 0x9b05688c
  g := 0x1f83d9ab
  h := 0x5be0cd19

/-- `m[i]` for `i < 16` -/
def blockWord (block : List UInt8) (i : Nat) : UInt32 :=
  (block.getD (i * 4) 0).toUInt32 <<< 24 ||| (block.getD (i * 4 + 1) 0).toUInt32 <<< 16 |||
    (block.getD (i * 4 + 2) 0).toUInt32 <<< 8 ||| (block.getD (i * 4 + 3) 0).toUInt32

/-- One more word behind the words there are. -/
def extendWords (m : List UInt32) (i : Nat) : List UInt32 :=
  m ++ [sig1 (m.getD (i - 2) 0) + m.getD (i - 7) 0 + sig0 (m.getD (i - 15) 0) + m.getD (i - 16) 0]

/-- The array `m`. -/
def messageWords (block : List UInt8) : List UInt32 :=
  (List.range' 16 48).foldl extendWords ((List.range 16).map (blockWord block))

def mixWord (m : List UInt32) (s : Sha256State) (i : Nat) : Sha256State :=
  let t1 := s.h + ep1 s.e + ch s.e s.f s.g + sha256K.getD i 0 + m.getD i 0
  let t2 := ep0 s.a + maj s.a s.b s.c
  { h := s.g, g := s.f, f := s.e, e := s.d + t1, d := s.c, c := s.b, b := s.a, a := t1 + t2 }

def sha256Transform (s : Sha256State) (block : List UInt8) : Sha256State :=
  let r := (List.range 64).foldl (mixWord (messageWords block)) s
  { a := s.a + r.a, b := s.b + r.b, c := s.c + r.c, d := s.d + r.d
    e := s.e + r.e, f := s.f + r.f, g := s.g + r.g, h := s.h + r.h }

/-- The full blocks of the data, and what remains. -/
def sha256Blocks (s : Sha256State) (data : List UInt8) : Sha256State × List UInt8 :=
  if 64 ≤ data.length then sha256Blocks (sha256Transform s (data.take 64)) (data.drop 64)
  else (s, data)
termination_by data.length
decreasing_by rw [List.length_drop]; omega

/-- `block[63 - i]`, the eight bytes at the end of the last block. -/
def lengthBytes (bits : UInt64) : List UInt8 :=
  (List.range 8).reverse.map fun i => (bits >>> UInt64.ofNat (i * 8)).toUInt8

def stateBytes (w : UInt32) : List UInt8 :=
  [(w >>> 24).toUInt8, (w >>> 16).toUInt8, (w >>> 8).toUInt8, w.toUInt8]

def sha256Output (s : Sha256State) : List UInt8 :=
  [s.a, s.b, s.c, s.d, s.e, s.f, s.g, s.h].flatMap stateBytes

def sha256 (data : List UInt8) : List UInt8 :=
  let (s, remaining) := sha256Blocks initialState data
  let block := remaining ++ 0x80 :: List.replicate (63 - remaining.length) 0
  let bits := UInt64.ofNat data.length * 8
  if 56 ≤ remaining.length then
    sha256Output
      (sha256Transform (sha256Transform s block) (List.replicate 56 0 ++ lengthBytes bits))
  else sha256Output (sha256Transform s (block.take 56 ++ lengthBytes bits))

/-! ## Bits -/

open Lib.Sha256

/-- The bits of the bytes, the highest of a byte first. -/
def bitsOf (bs : List UInt8) : List Bool :=
  bs.flatMap fun b => toBits 8 b.toNat

@[simp]
theorem bitsOf_nil : bitsOf [] = [] := rfl

@[simp]
theorem bitsOf_cons (b : UInt8) (bs : List UInt8) :
    bitsOf (b :: bs) = toBits 8 b.toNat ++ bitsOf bs := rfl

theorem bitsOf_append (bs bs' : List UInt8) : bitsOf (bs ++ bs') = bitsOf bs ++ bitsOf bs' :=
  List.flatMap_append

@[simp]
theorem length_bitsOf (bs : List UInt8) : (bitsOf bs).length = 8 * bs.length := by
  induction bs with
  | nil => rfl
  | cons b bs ih =>
      rw [bitsOf_cons, List.length_append, length_toBits, ih, List.length_cons]
      omega

theorem take_bitsOf (n : Nat) (bs : List UInt8) :
    (bitsOf bs).take (8 * n) = bitsOf (bs.take n) := by
  induction bs generalizing n with
  | nil => simp
  | cons b bs ih =>
      cases n with
      | zero => rfl
      | succ n =>
          have hsum : 8 * (n + 1) = (toBits 8 b.toNat).length + 8 * n := by
            rw [length_toBits, Nat.mul_succ, Nat.add_comm]
          rw [bitsOf_cons, List.take_succ_cons, bitsOf_cons, ← ih, hsum,
            List.take_length_add_append]

theorem drop_bitsOf (n : Nat) (bs : List UInt8) :
    (bitsOf bs).drop (8 * n) = bitsOf (bs.drop n) := by
  refine @List.append_cancel_left _ ((bitsOf bs).take (8 * n)) _ _ ?_
  rw [List.take_append_drop, take_bitsOf, ← bitsOf_append, List.take_append_drop]

theorem bitsOf_zeros (n : Nat) :
    bitsOf (List.replicate n 0) = List.replicate (8 * n) false := by
  induction n with
  | zero => rfl
  | succ n ih =>
      rw [List.replicate_succ, bitsOf_cons, ih, UInt8.toNat_zero, toBits_zero,
        List.replicate_append_replicate, Nat.mul_succ, Nat.add_comm]

/-- A byte of a number is eight of its bits. -/
theorem toBits_byte (w n : Nat) :
    toBits (w + 8) n = toBits w (n / 2 ^ 8) ++ toBits 8 (UInt8.ofNat n).toNat := by
  rw [toBits_add, UInt8.toNat_ofNat', toBits_mod le_rfl]

/-- The `k` low bytes of a number, the highest first. -/
def beBytes (k n : Nat) : List UInt8 :=
  (ByteCodec.leBytes k n).reverse

theorem beBytes_succ (k n : Nat) : beBytes (k + 1) n = beBytes k (n / 2 ^ 8) ++ [UInt8.ofNat n] :=
  List.reverse_cons

@[simp]
theorem length_beBytes (k n : Nat) : (beBytes k n).length = k := by
  rw [beBytes, List.length_reverse, ByteCodec.length_leBytes]

theorem bitsOf_beBytes (k n : Nat) : bitsOf (beBytes k n) = toBits (8 * k) n := by
  induction k generalizing n with
  | zero => rfl
  | succ k ih =>
      rw [beBytes_succ, bitsOf_append, ih, Nat.mul_succ, toBits_byte, bitsOf_cons, bitsOf_nil,
        List.append_nil]

theorem beBytes_eq_map (k n : Nat) :
    beBytes k n = (List.range k).reverse.map fun i => UInt8.ofNat (n / 2 ^ (8 * i)) := by
  induction k generalizing n with
  | zero => rfl
  | succ k ih =>
      have hdiv (i : Nat) : n / 2 ^ 8 / 2 ^ (8 * i) = n / 2 ^ (8 * (i + 1)) := by
        rw [Nat.div_div_eq_div_mul, ← pow_add, Nat.mul_succ, Nat.add_comm]
      rw [beBytes_succ, ih, List.range_succ_eq_map, List.reverse_cons, List.map_append,
        ← List.map_reverse, List.map_map, List.map_singleton, Nat.mul_zero, Nat.pow_zero,
        Nat.div_one]
      exact congrArg (· ++ _) (List.map_congr_left fun i _ => congrArg UInt8.ofNat (hdiv i))

theorem stateBytes_eq (w : UInt32) : stateBytes w = beBytes 4 w.toNat := by
  have hbyte (n : UInt32) : (w >>> n).toUInt8 = UInt8.ofNat (w.toNat / 2 ^ (n.toNat % 32)) := by
    refine UInt8.toNat_inj.mp ?_
    rw [UInt32.toNat_toUInt8, UInt32.toNat_shiftRight, UInt8.toNat_ofNat',
      Nat.shiftRight_eq_div_pow]
  have hlow : w.toUInt8 = UInt8.ofNat (w.toNat / 2 ^ 0) := by
    refine UInt8.toNat_inj.mp ?_
    rw [UInt32.toNat_toUInt8, UInt8.toNat_ofNat', Nat.pow_zero, Nat.div_one]
  have hrange : (List.range 4).reverse = [3, 2, 1, 0] := rfl
  rw [beBytes_eq_map, hrange, stateBytes, hbyte 24, hbyte 16, hbyte 8, hlow]
  rfl

theorem lengthBytes_eq (bits : UInt64) : lengthBytes bits = beBytes 8 bits.toNat := by
  rw [beBytes_eq_map, lengthBytes]
  refine List.map_congr_left fun i hi => ?_
  have hlt : i < 8 := by simpa using hi
  refine UInt8.toNat_inj.mp ?_
  rw [UInt64.toNat_toUInt8, UInt64.toNat_shiftRight, UInt64.toNat_ofNat', UInt8.toNat_ofNat',
    Nat.shiftRight_eq_div_pow, Nat.mul_comm i 8, Nat.mod_eq_of_lt (by omega : 8 * i < 2 ^ 64),
    Nat.mod_eq_of_lt (by omega : 8 * i < 64)]

theorem ofBits_bytes (b : UInt8) (bs : List UInt8) :
    ofBits (bitsOf (b :: bs)) = b.toNat * 2 ^ (8 * bs.length) + ofBits (bitsOf bs) := by
  rw [bitsOf_cons, ofBits_append, ofBits_toBits, Nat.mod_eq_of_lt b.toNat_lt, length_bitsOf]

/-- Four bytes put together by shifts. -/
theorem toBitVec_word (b₀ b₁ b₂ b₃ : UInt8) :
    (b₀.toUInt32 <<< 24 ||| b₁.toUInt32 <<< 16 ||| b₂.toUInt32 <<< 8 ||| b₃.toUInt32).toBitVec =
      toWord (bitsOf [b₀, b₁, b₂, b₃]) := by
  have h₀ := b₀.toNat_lt
  have h₁ := b₁.toNat_lt
  have h₂ := b₂.toNat_lt
  have h₃ := b₃.toNat_lt
  have hshift (b : UInt8) (n : UInt32) (hn : n.toNat ≤ 24) :
      (b.toUInt32 <<< n).toNat = b.toNat <<< n.toNat := by
    have hb := b.toNat_lt
    have hpow := Nat.pow_le_pow_right (n := 2) (by omega) hn
    rw [UInt32.toNat_shiftLeft, UInt8.toNat_toUInt32, Nat.mod_eq_of_lt (by omega : n.toNat < 32),
      Nat.mod_eq_of_lt]
    calc b.toNat <<< n.toNat = b.toNat * 2 ^ n.toNat := Nat.shiftLeft_eq _ _
      _ ≤ 255 * 2 ^ 24 := Nat.mul_le_mul (by omega) hpow
      _ < 2 ^ 32 := by omega
  have hlow : b₂.toNat <<< 8 ||| b₃.toNat = b₂.toNat * 2 ^ 8 + b₃.toNat := by
    rw [← Nat.shiftLeft_add_eq_or_of_lt h₃, Nat.shiftLeft_eq]
  have hmid : b₁.toNat <<< 16 ||| (b₂.toNat * 2 ^ 8 + b₃.toNat) =
      b₁.toNat * 2 ^ 16 + (b₂.toNat * 2 ^ 8 + b₃.toNat) := by
    rw [← Nat.shiftLeft_add_eq_or_of_lt (by omega), Nat.shiftLeft_eq]
  have hhigh : b₀.toNat <<< 24 ||| (b₁.toNat * 2 ^ 16 + (b₂.toNat * 2 ^ 8 + b₃.toNat)) =
      b₀.toNat * 2 ^ 24 + (b₁.toNat * 2 ^ 16 + (b₂.toNat * 2 ^ 8 + b₃.toNat)) := by
    rw [← Nat.shiftLeft_add_eq_or_of_lt (by omega), Nat.shiftLeft_eq]
  have hsum : ofBits (bitsOf [b₀, b₁, b₂, b₃]) =
      b₀.toNat * 2 ^ 24 + (b₁.toNat * 2 ^ 16 + (b₂.toNat * 2 ^ 8 + b₃.toNat)) := by
    rw [ofBits_bytes, ofBits_bytes, ofBits_bytes, ofBits_bytes, bitsOf_nil, List.length_nil,
      Nat.mul_zero, Nat.pow_zero, Nat.mul_one]
    rfl
  refine BitVec.eq_of_toNat_eq ?_
  rw [toWord, BitVec.toNat_ofNat, hsum, UInt32.toNat_toBitVec, UInt32.toNat_or, UInt32.toNat_or,
    UInt32.toNat_or, hshift b₀ 24 le_rfl, hshift b₁ 16 (by decide), hshift b₂ 8 (by decide),
    UInt8.toNat_toUInt32, Nat.or_assoc, Nat.or_assoc]
  change b₀.toNat <<< 24 ||| (b₁.toNat <<< 16 ||| (b₂.toNat <<< 8 ||| b₃.toNat)) = _
  rw [hlow, hmid, hhigh]
  omega

/-! ## Rounds -/

theorem constants_eq : constants = sha256K.map UInt32.toBitVec := rfl

/-- The hash value held by the array `state`. -/
def Sha256State.words (s : Sha256State) : State where
  a := s.a.toBitVec
  b := s.b.toBitVec
  c := s.c.toBitVec
  d := s.d.toBitVec
  e := s.e.toBitVec
  f := s.f.toBitVec
  g := s.g.toBitVec
  h := s.h.toBitVec

theorem take_four {bs : List UInt8} (hlen : 4 ≤ bs.length) :
    bs.take 4 = [bs.getD 0 0, bs.getD 1 0, bs.getD 2 0, bs.getD 3 0] := by
  obtain _ | ⟨b₀, _ | ⟨b₁, _ | ⟨b₂, _ | ⟨b₃, rest⟩⟩⟩⟩ := bs
  all_goals first | rfl | (simp at hlen)

theorem toBitVec_blockWord {block : List UInt8} (hlen : block.length = 64) {i : Nat} (hi : i < 16) :
    (blockWord block i).toBitVec = schedule (bitsOf block) i := by
  have hbits : ((bitsOf block).drop (32 * i)).take 32 = bitsOf ((block.drop (i * 4)).take 4) := by
    rw [← take_bitsOf, ← drop_bitsOf, Nat.mul_comm i 4, ← Nat.mul_assoc]
  have hbyte (k : Nat) : (block.drop (i * 4)).getD k 0 = block.getD (i * 4 + k) 0 := by
    simp [List.getD_eq_getElem?_getD]
  have hfour : 4 ≤ (block.drop (i * 4)).length := by
    rw [List.length_drop]
    omega
  rw [schedule, if_pos hi, blockWord, toBitVec_word, hbits, take_four hfour, hbyte, hbyte, hbyte,
    hbyte]
  rfl

/-- The words there are so far are those of the schedule. -/
def Scheduled (block : List UInt8) (m : List UInt32) : Prop :=
  ∀ t < m.length, (m.getD t 0).toBitVec = schedule (bitsOf block) t

theorem Scheduled.extendWords {block : List UInt8} {m : List UInt32} (h : Scheduled block m)
    (hlen : 16 ≤ m.length) : Scheduled block (extendWords m m.length) := by
  intro t ht
  rw [Hashing.extendWords, List.length_append, List.length_singleton] at ht
  obtain hlt | rfl := Nat.lt_or_eq_of_le (Nat.lt_succ_iff.mp ht)
  · rw [Hashing.extendWords, List.getD_append _ _ _ _ hlt]
    exact h t hlt
  · rw [Hashing.extendWords, List.getD_append_right _ _ _ _ le_rfl, Nat.sub_self, schedule,
      if_neg (by omega), ← h _ (by omega), ← h _ (by omega), ← h _ (by omega), ← h _ (by omega)]
    rfl

theorem scheduled_messageWords {block : List UInt8} (hlen : block.length = 64) :
    (messageWords block).length = 64 ∧ Scheduled block (messageWords block) := by
  have hrun : ∀ n, ((List.range' 16 n).foldl extendWords
        ((List.range 16).map (blockWord block))).length = 16 + n ∧
      Scheduled block ((List.range' 16 n).foldl extendWords
        ((List.range 16).map (blockWord block))) := by
    intro n
    induction n with
    | zero =>
        refine ⟨by simp, fun t ht => ?_⟩
        have ht16 : t < 16 := by simpa using ht
        rw [List.range'_zero, List.foldl_nil, ← toBitVec_blockWord hlen ht16]
        simp [List.getD_eq_getElem?_getD, ht16]
    | succ n ih =>
        obtain ⟨hcount, hsched⟩ := ih
        have hnext := hsched.extendWords (by omega)
        rw [hcount] at hnext
        rw [List.range'_1_concat, List.foldl_append, List.foldl_cons, List.foldl_nil]
        refine ⟨?_, hnext⟩
        rw [extendWords, List.length_append, hcount]
        rfl
  exact hrun 48

theorem words_mixWord {block : List UInt8} {m : List UInt32} (hm : Scheduled block m)
    (s : Sha256State) {i : Nat} (hi : i < m.length) :
    (mixWord m s i).words = Sha256.round (bitsOf block) s.words i := by
  have hconst : constants.getD i 0 = (sha256K.getD i 0).toBitVec := by
    rw [constants_eq]
    exact List.getD_map _ (0 : UInt32) UInt32.toBitVec
  rw [Sha256.round, hconst, ← hm i hi]
  rfl

theorem words_sha256Transform (s : Sha256State) {block : List UInt8} (hlen : block.length = 64) :
    (sha256Transform s block).words = compress s.words (bitsOf block) := by
  obtain ⟨hcount, hsched⟩ := scheduled_messageWords hlen
  have hrounds : ∀ n ≤ 64, ((List.range n).foldl (mixWord (messageWords block)) s).words =
      (List.range n).foldl (Sha256.round (bitsOf block)) s.words := by
    intro n hn
    induction n with
    | zero => rfl
    | succ n ih =>
        rw [List.range_succ, List.foldl_append, List.foldl_append, ← ih (by omega)]
        exact words_mixWord hsched _ (by omega)
  rw [compress, ← hrounds 64 le_rfl]
  rfl

/-! ## Messages -/

theorem absorb_block (n : Nat) (s : State) {block : List UInt8} (hlen : block.length = 64)
    (tail : List UInt8) :
    absorb (n + 1) s (bitsOf (block ++ tail)) =
      absorb n (compress s (bitsOf block)) (bitsOf tail) := by
  rw [absorb, show 512 = 8 * 64 from rfl, take_bitsOf, drop_bitsOf, List.take_left' hlen,
    List.drop_left' hlen]

/-- The full blocks, in front of what is put behind the data. -/
theorem absorb_sha256Blocks (n : Nat) (s : Sha256State) (data tail : List UInt8) :
    absorb (data.length / 64 + n) s.words (bitsOf (data ++ tail)) =
      absorb n (sha256Blocks s data).1.words (bitsOf ((sha256Blocks s data).2 ++ tail)) := by
  fun_induction sha256Blocks s data with
  | case1 s data hlen ih =>
      have hblock : (data.take 64).length = 64 := List.length_take_of_le hlen
      have hcount : data.length / 64 + n = (data.drop 64).length / 64 + n + 1 := by
        rw [List.length_drop]
        omega
      have hsplit : data ++ tail = data.take 64 ++ (data.drop 64 ++ tail) := by
        rw [← List.append_assoc, List.take_append_drop]
      rw [hcount, hsplit, absorb_block _ _ hblock, ← words_sha256Transform s hblock, ih]
  | case2 s data hlen =>
      rw [Nat.div_eq_of_lt (by omega), Nat.zero_add]

theorem length_sha256Blocks (s : Sha256State) (data : List UInt8) :
    (sha256Blocks s data).2.length = data.length % 64 := by
  fun_induction sha256Blocks s data with
  | case1 s data hlen ih =>
      rw [ih, List.length_drop]
      omega
  | case2 s data hlen => exact (Nat.mod_eq_of_lt (Nat.lt_of_not_le hlen)).symm

/-- How many zero bytes stand between the one bit and the length. -/
def paddingBytes (r : Nat) : Nat :=
  if 56 ≤ r then 119 - r else 55 - r

theorem zeros_eq (n : Nat) : zeros (8 * n) = 7 + 8 * paddingBytes (n % 64) := by
  unfold zeros paddingBytes
  split <;> omega

/-- What stands behind the data, in bytes. -/
theorem pad_bitsOf (data : List UInt8) :
    pad (bitsOf data) = bitsOf (data ++ 0x80 ::
      (List.replicate (paddingBytes (data.length % 64)) 0 ++ beBytes 8 (8 * data.length))) := by
  have hone : toBits 8 (UInt8.toNat 0x80) = true :: List.replicate 7 false := by decide
  rw [pad, length_bitsOf, bitsOf_append, bitsOf_cons, bitsOf_append, bitsOf_beBytes, bitsOf_zeros,
    hone, zeros_eq, ← List.replicate_append_replicate, List.cons_append, List.append_assoc]

theorem bitsOf_sha256Output (s : Sha256State) : bitsOf (sha256Output s) = digest s.words := by
  simp only [sha256Output, digest, List.flatMap_cons, List.flatMap_nil, bitsOf_append,
    stateBytes_eq, bitsOf_beBytes, bitsOf_nil]
  rfl

theorem toNat_bits {data : List UInt8} (hlen : data.length < 2 ^ 61) :
    (UInt64.ofNat data.length * 8).toNat = 8 * data.length := by
  rw [UInt64.toNat_mul, UInt64.toNat_ofNat', Nat.mod_eq_of_lt (by omega : data.length < 2 ^ 64)]
  change data.length * 8 % 2 ^ 64 = _
  omega

/-- The bytes behind the full blocks, padded: one block, or two of them. -/
theorem absorb_last (s : State) {rest l : List UInt8} (hrest : rest.length < 64)
    (hl : l.length = 8) :
    absorb (if 56 ≤ rest.length then 2 else 1) s
        (bitsOf (rest ++ 0x80 :: (List.replicate (paddingBytes rest.length) 0 ++ l))) =
      let block := rest ++ 0x80 :: List.replicate (63 - rest.length) 0
      if 56 ≤ rest.length then
        compress (compress s (bitsOf block)) (bitsOf (List.replicate 56 0 ++ l))
      else compress s (bitsOf (block.take 56 ++ l)) := by
  have hnil (s : State) (block : List UInt8) (hlen : block.length = 64) :
      absorb 1 s (bitsOf block) = compress s (bitsOf block) := by
    have hone := absorb_block 0 s hlen []
    rwa [List.append_nil] at hone
  by_cases hlong : 56 ≤ rest.length
  · -- the length has no room behind the data
    have hsplit : rest ++ 0x80 :: (List.replicate (paddingBytes rest.length) 0 ++ l) =
        (rest ++ 0x80 :: List.replicate (63 - rest.length) 0) ++ (List.replicate 56 0 ++ l) := by
      have hsum : paddingBytes rest.length = 63 - rest.length + 56 := by
        rw [paddingBytes, if_pos hlong]
        omega
      rw [hsum, ← List.replicate_append_replicate, List.append_assoc, List.append_assoc,
        List.cons_append]
    rw [if_pos hlong, if_pos hlong, hsplit, absorb_block _ _ (by simp; omega),
      hnil _ _ (by simp [hl])]
  · have hblock : (rest ++ 0x80 :: List.replicate (63 - rest.length) 0).take 56 =
        rest ++ 0x80 :: List.replicate (paddingBytes rest.length) 0 := by
      have hsum : 56 = rest.length + (paddingBytes rest.length + 1) := by
        rw [paddingBytes, if_neg hlong]
        omega
      rw [hsum, List.take_length_add_append, List.take_succ_cons, List.take_replicate,
        min_eq_left (by omega)]
    have hlen : paddingBytes rest.length = 55 - rest.length := if_neg hlong
    rw [if_neg hlong, if_neg hlong, hblock, List.append_assoc, List.cons_append, hnil]
    simp [hl, hlen]
    omega

/-- The digest of a message below `2 ^ 61` bytes, whatever its length leaves in the last block. -/
theorem bitsOf_sha256 (data : List UInt8) (hlen : data.length < 2 ^ 61) :
    bitsOf (sha256 data) = Lib.Sha256.sha256 (bitsOf data) := by
  have hrest := length_sha256Blocks initialState data
  have hlt : (sha256Blocks initialState data).2.length < 64 := by
    rw [hrest]
    exact Nat.mod_lt _ (by decide)
  have hcount : (pad (bitsOf data)).length / 512 =
      data.length / 64 + if 56 ≤ data.length % 64 then 2 else 1 := by
    rw [pad_bitsOf, length_bitsOf]
    simp only [List.length_append, List.length_cons, List.length_replicate, length_beBytes,
      paddingBytes]
    split <;> omega
  have hbits : lengthBytes (UInt64.ofNat data.length * 8) = beBytes 8 (8 * data.length) := by
    rw [lengthBytes_eq, toNat_bits hlen]
  have habsorb := absorb_last (sha256Blocks initialState data).1.words hlt
    (length_beBytes 8 (8 * data.length))
  rw [Lib.Sha256.sha256, hcount, pad_bitsOf, show initial = initialState.words from rfl,
    absorb_sha256Blocks, ← hrest, habsorb, sha256]
  dsimp only
  rw [hbits]
  split
  · next hlong =>
      rw [bitsOf_sha256Output, words_sha256Transform _ (by simp),
        words_sha256Transform _ (by simp; omega)]
  · next hshort =>
      rw [bitsOf_sha256Output, words_sha256Transform _ (by simp; omega)]

/-- `sha256("abc")` -/
theorem bitsOf_sha256_abc :
    bitsOf (sha256 [0x61, 0x62, 0x63]) = Lib.Sha256.sha256 (bitsOf [0x61, 0x62, 0x63]) :=
  bitsOf_sha256 _ (by decide)

end Hashing
end Server
end InventixDB
