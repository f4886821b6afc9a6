import InventixDB.Lib.Chaining
import Mathlib.Data.List.GetD
import Mathlib.Data.List.Nodup
import Mathlib.Data.List.Perm.Subperm
import Mathlib.Data.Nat.Bitwise

/-!
# Cipher — `security_aes_encrypt`

The text is padded with zeroes to blocks of 16 bytes.  Each block is combined with the one encrypted
before it and with the key, and goes through a table byte by byte.  A block has 16 bytes and the key
32, so half of the key is never read.
-/

namespace InventixDB
namespace Server

open Lib

/-! ## The cipher -/

def aesSboxTable : List UInt8 :=
  [0x63, 0x7c, 0x77, 0x7b, 0xf2, 0x6b, 0x6f, 0xc5, 0x30, 0x01, 0x67, 0x2b, 0xfe, 0xd7, 0xab, 0x76,
    0xca, 0x82, 0xc9, 0x7d, 0xfa, 0x59, 0x47, 0xf0, 0xad, 0xd4, 0xa2, 0xaf, 0x9c, 0xa4, 0x72, 0xc0,
    0xb7, 0xfd, 0x93, 0x26, 0x36, 0x3f, 0xf7, 0xcc, 0x34, 0xa5, 0xe5, 0xf1, 0x71, 0xd8, 0x31, 0x15,
    0x04, 0xc7, 0x23, 0xc3, 0x18, 0x96, 0x05, 0x9a, 0x07, 0x12, 0x80, 0xe2, 0xeb, 0x27, 0xb2, 0x75,
    0x09, 0x83, 0x2c, 0x1a, 0x1b, 0x6e, 0x5a, 0xa0, 0x52, 0x3b, 0xd6, 0xb3, 0x29, 0xe3, 0x2f, 0x84,
    0x53, 0xd1, 0x00, 0xed, 0x20, 0xfc, 0xb1, 0x5b, 0x6a, 0xcb, 0xbe, 0x39, 0x4a, 0x4c, 0x58, 0xcf,
    0xd0, 0xef, 0xaa, 0xfb, 0x43, 0x4d, 0x33, 0x85, 0x45, 0xf9, 0x02, 0x7f, 0x50, 0x3c, 0x9f, 0xa8,
    0x51, 0xa3, 0x40, 0x8f, 0x92, 0x9d, 0x38, 0xf5, 0xbc, 0xb6, 0xda, 0x21, 0x10, 0xff, 0xf3, 0xd2,
    0xcd, 0x0c, 0x13, 0xec, 0x5f, 0x97, 0x44, 0x17, 0xc4, 0xa7, 0x7e, 0x3d, 0x64, 0x5d, 0x19, 0x73,
    0x60, 0x81, 0x4f, 0xdc, 0x22, 0x2a, 0x90, 0x88, 0x46, 0xee, 0xb8, 0x14, 0xde, 0x5e, 0x0b, 0xdb,
    0xe0, 0x32, 0x3a, 0x0a, 0x49, 0x06, 0x24, 0x5c, 0xc2, 0xd3, 0xac, 0x62, 0x91, 0x95, 0xe4, 0x79,
    0xe7, 0xc8, 0x37, 0x6d, 0x8d, 0xd5, 0x4e, 0xa9, 0x6c, 0x56, 0xf4, 0xea, 0x65, 0x7a, 0xae, 0x08,
    0xba, 0x78, 0x25, 0x2e, 0x1c, 0xa6, 0xb4, 0xc6, 0xe8, 0xdd, 0x74, 0x1f, 0x4b, 0xbd, 0x8b, 0x8a,
    0x70, 0x3e, 0xb5, 0x66, 0x48, 0x03, 0xf6, 0x0e, 0x61, 0x35, 0x57, 0xb9, 0x86, 0xc1, 0x1d, 0x9e,
    0xe1, 0xf8, 0x98, 0x11, 0x69, 0xd9, 0x8e, 0x94, 0x9b, 0x1e, 0x87, 0xe9, 0xce, 0x55, 0x28, 0xdf,
    0x8c, 0xa1, 0x89, 0x0d, 0xbf, 0xe6, 0x42, 0x68, 0x41, 0x99, 0x2d, 0x0f, 0xb0, 0x54, 0xbb, 0x16]

/-- `aes_sbox[b]` -/
def aesSbox (b : UInt8) : UInt8 :=
  aesSboxTable.getD b.toNat 0

abbrev CipherBlock := Fin 16 → UInt8

/-- One round of the loop of `security_aes_encrypt`, behind the block `block`. -/
def encryptBlock (key : Fin 32 → UInt8) (block padded : CipherBlock) : CipherBlock :=
  fun j => aesSbox ((padded j ^^^ block j) ^^^ key ⟨j % 32, Nat.mod_lt _ (by decide)⟩)

/-- The blocks of `padded`. -/
def paddedBlocks (plaintext : List UInt8) : List CipherBlock :=
  (List.range ((plaintext.length + 15) / 16)).map fun i j => plaintext.getD (16 * i + j) 0

def blockBytes (blocks : List CipherBlock) : List UInt8 :=
  blocks.flatMap List.ofFn

/-- `security_aes_encrypt`: the bytes it writes to `ciphertext`; it returns how many they are. -/
def securityAesEncrypt (plaintext : List UInt8) (key : Fin 32 → UInt8) (iv : CipherBlock) :
    List UInt8 :=
  blockBytes (Chaining.encode (encryptBlock key) iv (paddedBlocks plaintext))

/-! ## The table -/

theorem length_aesSboxTable : aesSboxTable.length = 256 := by
  decide +kernel

/-- The bytes of a list as the bits of a number. -/
def bitSet (m : Nat) (bytes : List UInt8) : Nat :=
  bytes.foldl (fun m b => m ||| 2 ^ b.toNat) m

theorem testBit_bitSet (m : Nat) (bytes : List UInt8) (b : UInt8) :
    (bitSet m bytes).testBit b.toNat = (m.testBit b.toNat || bytes.contains b) := by
  induction bytes generalizing m with
  | nil => simp [bitSet]
  | cons c bytes ih =>
      have hcons : bitSet m (c :: bytes) = bitSet (m ||| 2 ^ c.toNat) bytes := rfl
      rw [hcons, ih, Nat.testBit_or, Nat.testBit_two_pow, List.contains_cons, Bool.or_assoc]
      simp [UInt8.toNat_inj, eq_comm, Bool.beq_eq_decide_eq]

theorem bitSet_aesSboxTable : bitSet 0 aesSboxTable = 2 ^ 256 - 1 := by
  decide +kernel

theorem mem_aesSboxTable (b : UInt8) : b ∈ aesSboxTable := by
  have hbit := testBit_bitSet 0 aesSboxTable b
  rw [bitSet_aesSboxTable, Nat.testBit_two_pow_sub_one, Nat.zero_testBit, Bool.false_or,
    decide_eq_true b.toNat_lt] at hbit
  exact List.contains_iff_mem.mp hbit.symm

/-- Every byte stands in the table, and there is room for each just once. -/
theorem nodup_aesSboxTable : aesSboxTable.Nodup := by
  have hbytes : ((List.range 256).map UInt8.ofNat).Nodup := by
    refine List.Nodup.map_on (fun a ha b hb hab => ?_) List.nodup_range
    have hnat := congrArg UInt8.toNat hab
    rw [List.mem_range] at ha hb
    rwa [UInt8.toNat_ofNat_of_lt' ha, UInt8.toNat_ofNat_of_lt' hb] at hnat
  -- 256 places that hold all 256 bytes
  have hperm := (hbytes.subperm fun b _ => mem_aesSboxTable b).perm_of_length_le
    (by rw [length_aesSboxTable]; simp)
  exact hperm.nodup_iff.mp hbytes

/-- The byte at whose place the table has `c`. -/
def aesSboxInverse (c : UInt8) : UInt8 :=
  UInt8.ofNat (aesSboxTable.idxOf c)

theorem aesSboxInverse_aesSbox (b : UInt8) : aesSboxInverse (aesSbox b) = b := by
  have hlt : b.toNat < aesSboxTable.length := by
    rw [length_aesSboxTable]
    exact b.toNat_lt
  unfold aesSboxInverse aesSbox
  rw [List.getD_eq_getElem _ _ hlt, nodup_aesSboxTable.idxOf_getElem, UInt8.ofNat_toNat]

theorem aesSbox_injective : Function.Injective aesSbox :=
  Function.LeftInverse.injective aesSboxInverse_aesSbox

/-! ## Reading a text back -/

/-- What undoes `encryptBlock`. -/
def decryptBlock (key : Fin 32 → UInt8) (block cipher : CipherBlock) : CipherBlock :=
  fun j => (aesSboxInverse (cipher j) ^^^ key ⟨j % 32, Nat.mod_lt _ (by decide)⟩) ^^^ block j

theorem decryptBlock_encryptBlock (key : Fin 32 → UInt8) (block padded : CipherBlock) :
    decryptBlock key block (encryptBlock key block padded) = padded := by
  funext j
  unfold decryptBlock encryptBlock
  rw [aesSboxInverse_aesSbox, UInt8.xor_assoc (padded j ^^^ block j), UInt8.xor_self,
    UInt8.xor_zero, UInt8.xor_assoc, UInt8.xor_self, UInt8.xor_zero]

/-- The bytes in blocks of 16. -/
def bytesBlocks : Nat → List UInt8 → List CipherBlock
  | 0, _ => []
  | n + 1, bytes => (fun j => bytes.getD j 0) :: bytesBlocks n (bytes.drop 16)

theorem bytesBlocks_blockBytes (blocks : List CipherBlock) :
    bytesBlocks blocks.length (blockBytes blocks) = blocks := by
  induction blocks with
  | nil => rfl
  | cons block blocks ih =>
      have hbytes : blockBytes (block :: blocks) = List.ofFn block ++ blockBytes blocks := rfl
      rw [List.length_cons, bytesBlocks, hbytes]
      refine List.cons_eq_cons.mpr ⟨funext fun j => ?_, ?_⟩
      · rw [List.getD_append _ _ _ _ (by rw [List.length_ofFn]; exact j.isLt),
          List.getD_eq_getElem _ _ (by rw [List.length_ofFn]; exact j.isLt), List.getElem_ofFn]
      · rw [List.drop_left' (by simp), ih]

theorem length_blockBytes (blocks : List CipherBlock) :
    (blockBytes blocks).length = 16 * blocks.length := by
  induction blocks with
  | nil => rfl
  | cons block blocks ih =>
      have hbytes : blockBytes (block :: blocks) = List.ofFn block ++ blockBytes blocks := rfl
      rw [hbytes, List.length_append, ih, List.length_ofFn, List.length_cons]
      omega

theorem blockBytes_injective : Function.Injective blockBytes := by
  intro a b hab
  have hlen := congrArg List.length hab
  rw [length_blockBytes, length_blockBytes] at hlen
  rw [← bytesBlocks_blockBytes a, ← bytesBlocks_blockBytes b, hab,
    show a.length = b.length by omega]

/-- The text and the zeroes behind it. -/
def zeroPadded (plaintext : List UInt8) : List UInt8 :=
  plaintext ++ List.replicate ((plaintext.length + 15) / 16 * 16 - plaintext.length) 0

theorem blockBytes_map_range (h : Nat → UInt8) (n : Nat) :
    blockBytes ((List.range n).map fun i j => h (16 * i + j)) = (List.range (n * 16)).map h := by
  induction n with
  | zero => rfl
  | succ n ih =>
      have hlast : List.ofFn (fun j : Fin 16 => h (16 * n + j)) =
          (List.range 16).map fun j => h (n * 16 + j) := by
        refine List.ext_getElem (by simp) fun j hj hj' => ?_
        rw [List.getElem_ofFn, List.getElem_map, List.getElem_range, Nat.mul_comm]
      have hbytes : blockBytes ((List.range (n + 1)).map fun i j => h (16 * i + j)) =
          blockBytes ((List.range n).map fun i j => h (16 * i + j)) ++
            List.ofFn (fun j : Fin 16 => h (16 * n + j)) := by
        unfold blockBytes
        rw [List.range_succ, List.map_append, List.flatMap_append]
        simp
      rw [hbytes, ih, hlast, Nat.succ_mul, List.range_add, List.map_append, List.map_map]
      rfl

theorem blockBytes_paddedBlocks (plaintext : List UInt8) :
    blockBytes (paddedBlocks plaintext) = zeroPadded plaintext := by
  have hle : plaintext.length ≤ (plaintext.length + 15) / 16 * 16 := by omega
  rw [paddedBlocks, blockBytes_map_range fun k => plaintext.getD k 0, zeroPadded]
  refine List.ext_getElem ?_ fun k hk hk' => ?_
  · rw [List.length_append, List.length_replicate, List.length_map, List.length_range]
    omega
  · rw [List.getElem_map, List.getElem_range]
    by_cases hin : k < plaintext.length
    · rw [List.getElem_append_left hin, List.getD_eq_getElem _ _ hin]
    · rw [List.getElem_append_right (Nat.le_of_not_lt hin), List.getElem_replicate,
        List.getD_eq_default _ _ (Nat.le_of_not_lt hin)]

/-- The text that `ciphertext` is for, with its padding. -/
def readCipher (ciphertext : List UInt8) (key : Fin 32 → UInt8) (iv : CipherBlock) : List UInt8 :=
  blockBytes
    (Chaining.decode (decryptBlock key) iv (bytesBlocks (ciphertext.length / 16) ciphertext))

theorem readCipher_securityAesEncrypt (plaintext : List UInt8) (key : Fin 32 → UInt8)
    (iv : CipherBlock) :
    readCipher (securityAesEncrypt plaintext key iv) key iv = zeroPadded plaintext := by
  unfold readCipher securityAesEncrypt
  rw [length_blockBytes, Nat.mul_div_cancel_left _ (by decide), bytesBlocks_blockBytes,
    Chaining.decode_encode (decryptBlock_encryptBlock key), blockBytes_paddedBlocks]

variable {key key' : Fin 32 → UInt8} {iv : CipherBlock}

/-- Texts share a ciphertext exactly if they differ in zeroes at their ends and need as many
blocks. -/
theorem securityAesEncrypt_eq_iff (plaintext plaintext' : List UInt8) :
    securityAesEncrypt plaintext key iv = securityAesEncrypt plaintext' key iv ↔
      zeroPadded plaintext = zeroPadded plaintext' := by
  constructor
  · intro heq
    rw [← readCipher_securityAesEncrypt plaintext key iv, heq, readCipher_securityAesEncrypt]
  · intro heq
    rw [← blockBytes_paddedBlocks, ← blockBytes_paddedBlocks] at heq
    rw [securityAesEncrypt, blockBytes_injective heq, securityAesEncrypt]

/-! ## The key -/

/-- The bytes of the key that are read. -/
def readKey (key : Fin 32 → UInt8) : CipherBlock :=
  fun j => key (j.castLE (by decide))

theorem encryptBlock_eq_iff (block padded : CipherBlock) :
    encryptBlock key block padded = encryptBlock key' block padded ↔
      readKey key = readKey key' := by
  have hread : ∀ (key : Fin 32 → UInt8) (j : Fin 16),
      key ⟨j % 32, Nat.mod_lt _ (by decide)⟩ = readKey key j := by
    intro key j
    refine congrArg key (Fin.ext ?_)
    exact Nat.mod_eq_of_lt (by omega)
  constructor
  · intro heq
    funext j
    have hbyte := aesSbox_injective (congrFun heq j)
    rw [hread key j, hread key' j] at hbyte
    exact (UInt8.xor_right_inj _).mp hbyte
  · intro heq
    funext j
    unfold encryptBlock
    rw [hread key j, hread key' j, heq]

/-- Of the 32 bytes of the key 16 are read, and each of these matters to every text. -/
theorem securityAesEncrypt_key_iff {plaintext : List UInt8} (hplaintext : plaintext ≠ []) :
    securityAesEncrypt plaintext key iv = securityAesEncrypt plaintext key' iv ↔
      ∀ j : Fin 32, j < 16 → key j = key' j := by
  have hhalf : readKey key = readKey key' ↔ ∀ j : Fin 32, j < 16 → key j = key' j := by
    constructor
    · intro heq j hj
      exact congrFun heq ⟨j, hj⟩
    · intro hall
      exact funext fun j => hall _ j.isLt
  rw [← hhalf]
  constructor
  · intro heq
    have hcodes := blockBytes_injective heq
    have hpos : 0 < (plaintext.length + 15) / 16 := by
      have hlen := List.length_pos_iff.mpr hplaintext
      omega
    -- the first block tells the keys apart
    cases hblocks : paddedBlocks plaintext with
    | nil =>
        have hlen := congrArg List.length hblocks
        rw [paddedBlocks, List.length_map, List.length_range, List.length_nil] at hlen
        omega
    | cons block blocks =>
        rw [hblocks] at hcodes
        exact (encryptBlock_eq_iff iv block).mp (List.cons_eq_cons.mp hcodes).1
  · intro heq
    unfold securityAesEncrypt
    rw [Chaining.encode_congr fun block padded => (encryptBlock_eq_iff block padded).mpr heq]

theorem securityAesEncrypt_sameHalf :
    securityAesEncrypt [1] (fun _ => 0) (fun _ => 0) =
      securityAesEncrypt [1] (fun j => if j < 16 then 0 else 1) (fun _ => 0) :=
  (securityAesEncrypt_key_iff (by decide)).mpr fun _ hj => (if_pos hj).symm

end Server
end InventixDB
