import Mathlib.Data.List.Basic

/-!
# Chaining — blocks that are encoded one behind another

Each block is encoded with the code of the block before it.  If a block can be read back from its
code and the one before it, so can a list of blocks.
-/

namespace InventixDB
namespace Lib
namespace Chaining

variable {σ β : Type*} {f : σ → β → σ} {g : σ → σ → β}

/-- The codes of the blocks; the first is encoded with `s`. -/
def encode (f : σ → β → σ) (s : σ) : List β → List σ
  | [] => []
  | b :: bs => f s b :: encode f (f s b) bs

/-- The blocks of the codes. -/
def decode (g : σ → σ → β) (s : σ) : List σ → List β
  | [] => []
  | c :: cs => g s c :: decode g c cs

theorem decode_encode (hread : ∀ s b, g s (f s b) = b) (s : σ) (bs : List β) :
    decode g s (encode f s bs) = bs := by
  induction bs generalizing s with
  | nil => rfl
  | cons b bs ih => rw [encode, decode, hread, ih]

/-- Two encodings agree on blocks if they agree on each of them behind every code. -/
theorem encode_congr {f' : σ → β → σ} (hsame : ∀ s b, f s b = f' s b) (s : σ) (bs : List β) :
    encode f s bs = encode f' s bs := by
  rw [show f = f' from funext fun s => funext (hsame s)]

end Chaining
end Lib
end InventixDB
