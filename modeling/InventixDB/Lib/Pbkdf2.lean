import InventixDB.Lib.ByteCodec
import Mathlib.Data.List.Basic

/-!
# Pbkdf2 — keys derived from passwords, after RFC 8018

`hmac` makes a keyed function of a hash function, and `pbkdf2` derives a key of any length from a
password by a keyed function that is applied over and over.
-/

namespace InventixDB
namespace Lib
namespace Pbkdf2

/-- The exclusive or of two strings of one length. -/
def xor (a b : List UInt8) : List UInt8 :=
  List.zipWith (· ^^^ ·) a b

theorem length_xor {a b : List UInt8} (h : a.length = b.length) : (xor a b).length = a.length := by
  rw [xor, List.length_zipWith, h, min_self]

/-! ## HMAC -/

section Hmac

variable (hash : List UInt8 → List UInt8) (blockSize : Nat)

/-- The key, brought to the length of a block. -/
def blockKey (key : List UInt8) : List UInt8 :=
  let short := if blockSize < key.length then hash key else key
  short ++ List.replicate (blockSize - short.length) 0

def hmac (key text : List UInt8) : List UInt8 :=
  hash ((blockKey hash blockSize key).map (· ^^^ 0x5c) ++
    hash ((blockKey hash blockSize key).map (· ^^^ 0x36) ++ text))

theorem length_blockKey {key : List UInt8} (hhash : (hash key).length ≤ blockSize) :
    (blockKey hash blockSize key).length = blockSize := by
  rw [blockKey, List.length_append, List.length_replicate]
  split <;> omega

end Hmac

/-! ## PBKDF2 -/

variable (prf : List UInt8 → List UInt8 → List UInt8) (hLen : Nat)

/-- `INT (i)`, four bytes with the highest first. -/
def int (i : Nat) : List UInt8 :=
  (ByteCodec.leBytes 4 i).reverse

/-- `U_{j + 1}` of block `i`. -/
def chain (password salt : List UInt8) (i : Nat) : Nat → List UInt8
  | 0 => prf password (salt ++ int i)
  | j + 1 => prf password (chain password salt i j)

/-- `U_1 ^ … ^ U_{j + 1}` -/
def mixed (password salt : List UInt8) (i : Nat) : Nat → List UInt8
  | 0 => chain prf password salt i 0
  | j + 1 => xor (mixed password salt i j) (chain prf password salt i (j + 1))

/-- `F (P, S, c, i)` -/
def block (password salt : List UInt8) (c i : Nat) : List UInt8 :=
  mixed prf password salt i (c - 1)

/-- The first `n` blocks. -/
def blocks (password salt : List UInt8) (c n : Nat) : List UInt8 :=
  (List.range n).flatMap fun i => block prf password salt c (i + 1)

/-- The derived key, unless it is too long. -/
def pbkdf2 (password salt : List UInt8) (c dkLen : Nat) : Option (List UInt8) :=
  if (2 ^ 32 - 1) * hLen < dkLen then none
  else some ((blocks prf password salt c ((dkLen + hLen - 1) / hLen)).take dkLen)

variable {prf hLen}

theorem length_block (hprf : ∀ key text, (prf key text).length = hLen)
    (password salt : List UInt8) (c i : Nat) : (block prf password salt c i).length = hLen := by
  have hchain (j : Nat) : (chain prf password salt i j).length = hLen := by
    cases j with
    | zero => exact hprf _ _
    | succ j => exact hprf _ _
  have hmixed (j : Nat) : (mixed prf password salt i j).length = hLen := by
    induction j with
    | zero => exact hchain 0
    | succ j ih => rw [mixed, length_xor (ih.trans (hchain _).symm), ih]
  exact hmixed _

theorem blocks_succ (password salt : List UInt8) (c n : Nat) :
    blocks prf password salt c (n + 1) =
      blocks prf password salt c n ++ block prf password salt c (n + 1) := by
  rw [blocks, List.range_succ, List.flatMap_append, List.flatMap_singleton, blocks]

theorem length_blocks (hprf : ∀ key text, (prf key text).length = hLen)
    (password salt : List UInt8) (c n : Nat) :
    (blocks prf password salt c n).length = n * hLen := by
  induction n with
  | zero => rw [Nat.zero_mul]; rfl
  | succ n ih =>
      rw [blocks_succ, List.length_append, ih, length_block hprf, Nat.succ_mul]

end Pbkdf2
end Lib
end InventixDB
