import InventixDB.Lib.Buffer
import InventixDB.Lib.Pbkdf2
import InventixDB.Server.Hashing
import InventixDB.Storage.CStr

/-!
# PasswordHash — the stretched hash of a password

`pbkdf2_sha256` puts every text it hashes together in one buffer, whose length follows from the
longest text of the first turn.  The texts of the other turns have 96 bytes, whatever the password
and the salt.
-/

namespace InventixDB
namespace Server

open Lib
open Storage

namespace PasswordHash

open Hashing

/-! ## The buffer -/

/-- `memcpy` into a buffer, unless a byte would land behind its end. -/
def put (buf : List UInt8) (pos : Nat) (data : List UInt8) : Option (List UInt8) :=
  if pos + data.length ≤ buf.length then some (Buffer.write buf pos data) else none

/-- `sha256` of the first bytes of the buffer, unless they reach behind its end. -/
def sha256Of (message : List UInt8) (len : Nat) : Option (List UInt8) :=
  if len ≤ message.length then some (sha256 (message.take len)) else none

/-- The array `key`. -/
def hmacKey (password : CStr) : List UInt8 :=
  Buffer.write (List.replicate 64 0) 0
    (if password.length > 64 then sha256 password.val else password.val)

section Turns

variable (ipad opad : List UInt8)

/-- The outer text takes the place of the inner one. -/
def outerHash (message innerHash : List UInt8) : Option (List UInt8 × List UInt8) := do
  let message ← put message 0 opad
  let message ← put message 64 innerHash
  return (message, ← sha256Of message 96)

/-- `U1` -/
def firstHash (salt : List UInt8) (blockNum : Nat) (message : List UInt8) :
    Option (List UInt8 × List UInt8) := do
  let message ← put message 0 ipad
  let message ← put message 64 salt
  let message ← put message (64 + salt.length)
    [UInt8.ofNat (blockNum >>> 24), UInt8.ofNat (blockNum >>> 16), UInt8.ofNat (blockNum >>> 8),
      UInt8.ofNat blockNum]
  let innerHash ← sha256Of message (64 + salt.length + 4)
  outerHash opad message innerHash

/-- `U_i` of `U_{i - 1}` -/
def nextHash (message u : List UInt8) : Option (List UInt8 × List UInt8) := do
  let message ← put message 0 ipad
  let message ← put message 64 u
  let innerHash ← sha256Of message 96
  outerHash opad message innerHash

/-- The inner loop: the buffer, `U` and `T` after so many turns. -/
def iterate (message u : List UInt8) : Nat → Option (List UInt8 × List UInt8 × List UInt8)
  | 0 => some (message, u, u)
  | n + 1 => do
      let (message, u, t) ← iterate message u n
      let (message, u) ← nextHash ipad opad message u
      return (message, u, Pbkdf2.xor t u)

/-- One turn of the outer loop, up to the copy of `T`. -/
def deriveBlock (salt : List UInt8) (iterations : Int) (blockNum : Nat) (message : List UInt8) :
    Option (List UInt8 × List UInt8) := do
  let (message, u) ← firstHash ipad opad salt blockNum message
  let (message, _, t) ← iterate ipad opad message u (iterations - 1).toNat
  return (message, t)

/-- The outer loop: the buffer and the output after so many of the blocks. -/
def deriveBlocks (salt : List UInt8) (iterations : Int) (count : Nat)
    (message output : List UInt8) : Nat → Option (List UInt8 × List UInt8)
  | 0 => some (message, output)
  | n + 1 => do
      let (message, output) ← deriveBlocks salt iterations count message output n
      let (message, t) ← deriveBlock ipad opad salt iterations (n + 1) message
      let copyLen := if n + 1 = count then output.length - (count - 1) * 32 else 32
      return (message, ← put output (n * 32) (t.take copyLen))

end Turns

/-- `pbkdf2_sha256`, to an output of so many bytes.  Nothing is returned when a byte outside of a
buffer is written; `heap` is what `malloc` leaves in the memory it gives. -/
def pbkdf2Sha256 (heap : Nat → UInt8) (password : CStr) (salt : List UInt8) (iterations : Int)
    (output : List UInt8) : Option (List UInt8) :=
  let message := (List.range (password.length + salt.length + 4 + 64)).map heap
  let ipad := (hmacKey password).map (· ^^^ 0x36)
  let opad := (hmacKey password).map (· ^^^ 0x5c)
  let blocks := (output.length + 31) % 2 ^ 64 / 32
  (deriveBlocks ipad opad salt iterations blocks message output blocks).map Prod.snd

/-! ## Texts in the buffer -/

/-- A text in the buffer grows by what is put behind it. -/
theorem put_behind {buf text : List UInt8} (data : List UInt8)
    (htext : buf.take text.length = text)
    (hfit : text.length + data.length ≤ buf.length) :
    ∃ buf', put buf text.length data = some buf' ∧ buf'.length = buf.length ∧
      buf'.take (text ++ data).length = text ++ data := by
  refine ⟨_, if_pos hfit, Buffer.length_write .., ?_⟩
  rw [Buffer.write, htext, List.take_of_length_le (l := data) (by omega), ← List.append_assoc,
    List.take_left]

theorem put_front {buf data : List UInt8} (hfit : data.length ≤ buf.length) :
    ∃ buf', put buf 0 data = some buf' ∧ buf'.length = buf.length ∧
      buf'.take data.length = data := by
  have hnil : buf.take ([] : List UInt8).length = [] := rfl
  obtain ⟨buf', hput, hlen, htext⟩ := put_behind data hnil (by rw [List.length_nil]; omega)
  exact ⟨buf', hput, hlen, htext⟩

theorem put_append {text rest data : List UInt8} (hfit : data.length ≤ rest.length) :
    put (text ++ rest) text.length data = some (text ++ (data ++ rest.drop data.length)) := by
  rw [put, if_pos (by rw [List.length_append]; omega), Buffer.write, List.take_left,
    List.length_append, List.take_of_length_le (by omega), List.drop_length_add_append]

theorem put_outside {buf data : List UInt8} {pos : Nat} (h : buf.length < pos + data.length) :
    put buf pos data = none :=
  if_neg (by omega)

theorem length_put {buf data buf' : List UInt8} {pos : Nat} (h : put buf pos data = some buf') :
    buf'.length = buf.length := by
  rw [put] at h
  split at h
  · rw [← Option.some_inj.mp h, Buffer.length_write]
  · cases h

theorem sha256Of_text {buf text : List UInt8} (htext : buf.take text.length = text) :
    sha256Of buf text.length = some (sha256 text) := by
  have hle : text.length ≤ buf.length := by
    have hlen := congrArg List.length htext
    rw [List.length_take] at hlen
    omega
  rw [sha256Of, if_pos hle, htext]

theorem length_sha256 (data : List UInt8) : (sha256 data).length = 32 := by
  have hout (s : Sha256State) : (sha256Output s).length = 32 := rfl
  rw [sha256]
  dsimp only
  split
  · exact hout _
  · exact hout _

/-- The key of the code is that of the standard. -/
theorem hmacKey_eq (password : CStr) :
    hmacKey password = Pbkdf2.blockKey sha256 64 password.val := by
  rw [hmacKey, Pbkdf2.blockKey]
  change Buffer.write _ 0 (if 64 < password.val.length then _ else _) = _
  generalize hkey : (if 64 < password.val.length then sha256 password.val else password.val) = key
  have hlen : key.length ≤ 64 := by
    rw [← hkey]
    split
    · rw [length_sha256]
      decide
    · omega
  rw [Buffer.write, List.take_zero, List.nil_append, List.length_replicate,
    List.take_of_length_le (by omega), Nat.zero_add, List.drop_replicate]

/-! ## Turns -/

section Turns

variable {ipad opad : List UInt8} (message : List UInt8)

theorem outerHash_fits (ho : opad.length = 64) (hfit : 96 ≤ message.length)
    {innerHash : List UInt8} (hinner : innerHash.length = 32) :
    ∃ message', outerHash opad message innerHash = some (message', sha256 (opad ++ innerHash)) ∧
      message'.length = message.length := by
  have hfront : opad.length ≤ message.length := by omega
  obtain ⟨m₁, hput₁, hlen₁, htext₁⟩ := put_front hfront
  obtain ⟨m₂, hput₂, hlen₂, htext₂⟩ := put_behind innerHash htext₁ (by omega)
  have hhash := sha256Of_text htext₂
  rw [List.length_append, ho, hinner] at hhash
  rw [ho] at hput₂
  exact ⟨m₂, by simp [outerHash, hput₁, hput₂, hhash], by omega⟩

theorem nextHash_fits (hi : ipad.length = 64) (ho : opad.length = 64) (hfit : 96 ≤ message.length)
    {u : List UInt8} (hu : u.length = 32) :
    ∃ message', nextHash ipad opad message u =
        some (message', sha256 (opad ++ sha256 (ipad ++ u))) ∧
      message'.length = message.length := by
  have hfront : ipad.length ≤ message.length := by omega
  obtain ⟨m₁, hput₁, hlen₁, htext₁⟩ := put_front hfront
  obtain ⟨m₂, hput₂, hlen₂, htext₂⟩ := put_behind u htext₁ (by omega)
  have hhash := sha256Of_text htext₂
  rw [List.length_append, hi, hu] at hhash
  obtain ⟨m₃, houter, hlen₃⟩ := outerHash_fits m₂ ho (by omega) (length_sha256 (ipad ++ u))
  rw [hi] at hput₂
  exact ⟨m₃, by simp [nextHash, hput₁, hput₂, hhash, houter], by omega⟩

/-- The four bytes of the block number. -/
theorem int_eq (i : Nat) :
    [UInt8.ofNat (i >>> 24), UInt8.ofNat (i >>> 16), UInt8.ofNat (i >>> 8), UInt8.ofNat i] =
      Pbkdf2.int i := by
  simp [Pbkdf2.int, ByteCodec.leBytes, Nat.shiftRight_eq_div_pow, Nat.div_div_eq_div_mul]

/-- The inner text of the first turn has room for every salt. -/
theorem firstHash_eq (hi : ipad.length = 64) (opad salt : List UInt8) (i : Nat)
    (htext : 64 + salt.length + 4 ≤ message.length) :
    ∃ m, firstHash ipad opad salt i message =
        outerHash opad m (sha256 (ipad ++ (salt ++ Pbkdf2.int i))) ∧
      m.length = message.length := by
  have hfront : ipad.length ≤ message.length := by omega
  obtain ⟨m₁, hput₁, hlen₁, htext₁⟩ := put_front hfront
  obtain ⟨m₂, hput₂, hlen₂, htext₂⟩ := put_behind salt htext₁ (by omega)
  have hint : (Pbkdf2.int i).length = 4 := rfl
  obtain ⟨m₃, hput₃, hlen₃, htext₃⟩ := put_behind (Pbkdf2.int i) htext₂ (by
    rw [List.length_append]
    omega)
  have hhash := sha256Of_text htext₃
  rw [List.length_append, List.length_append, hi, hint, List.append_assoc] at hhash
  rw [hi] at hput₂
  rw [List.length_append, hi] at hput₃
  exact ⟨m₃, by simp [firstHash, int_eq, hput₁, hput₂, hput₃, hhash], by omega⟩

/-- The outer text has 96 bytes, and the first turn already hashes one. -/
theorem outerHash_outside (hlen : message.length < 96) {innerHash : List UInt8}
    (hinner : innerHash.length = 32) : outerHash opad message innerHash = none := by
  cases hput : put message 0 opad with
  | none => simp [outerHash, hput]
  | some m =>
      have hm : m.length = message.length := length_put hput
      have hbehind : put m 64 innerHash = none := put_outside (by omega)
      simp [outerHash, hput, hbehind]

end Turns

/-! ## Blocks -/

section Blocks

variable (password : CStr) (salt message : List UInt8) (iterations : Int)

/-- `HMAC-SHA-256` -/
abbrev hmacSha256 : List UInt8 → List UInt8 → List UInt8 :=
  Pbkdf2.hmac sha256 64

theorem length_hmacSha256 (key text : List UInt8) : (hmacSha256 key text).length = 32 :=
  length_sha256 _

def innerPad (password : CStr) : List UInt8 :=
  (hmacKey password).map (· ^^^ 0x36)

def outerPad (password : CStr) : List UInt8 :=
  (hmacKey password).map (· ^^^ 0x5c)

theorem length_hmacKey (password : CStr) : (hmacKey password).length = 64 := by
  rw [hmacKey_eq, Pbkdf2.length_blockKey]
  rw [length_sha256]
  decide

theorem length_innerPad (password : CStr) : (innerPad password).length = 64 := by
  rw [innerPad, List.length_map, length_hmacKey]

theorem length_outerPad (password : CStr) : (outerPad password).length = 64 := by
  rw [outerPad, List.length_map, length_hmacKey]

/-- What a turn computes is the keyed hash of its text. -/
theorem pads_eq (password : CStr) (text : List UInt8) :
    sha256 (outerPad password ++ sha256 (innerPad password ++ text)) =
      hmacSha256 password.val text := by
  rw [outerPad, innerPad, hmacKey_eq]
  rfl

theorem iterate_fits (hfit : 96 ≤ message.length) (i n : Nat) :
    ∃ m, iterate (innerPad password) (outerPad password) message
        (Pbkdf2.chain hmacSha256 password.val salt i 0) n =
          some (m, Pbkdf2.chain hmacSha256 password.val salt i n,
            Pbkdf2.mixed hmacSha256 password.val salt i n) ∧
      m.length = message.length := by
  induction n with
  | zero => exact ⟨message, rfl, rfl⟩
  | succ n ih =>
      obtain ⟨m, hrun, hlen⟩ := ih
      have hu : (Pbkdf2.chain hmacSha256 password.val salt i n).length = 32 := by
        cases n with
        | zero => exact length_hmacSha256 _ _
        | succ n => exact length_hmacSha256 _ _
      obtain ⟨m', hnext, hlen'⟩ := nextHash_fits m (length_innerPad password)
        (length_outerPad password) (by omega) hu
      rw [pads_eq] at hnext
      refine ⟨m', ?_, by omega⟩
      rw [iterate, hrun]
      simp [hnext, Pbkdf2.chain, Pbkdf2.mixed]

theorem deriveBlock_fits (hfit : 96 ≤ message.length)
    (htext : 64 + salt.length + 4 ≤ message.length) (i : Nat) :
    ∃ m, deriveBlock (innerPad password) (outerPad password) salt iterations i message =
        some (m, Pbkdf2.block hmacSha256 password.val salt iterations.toNat i) ∧
      m.length = message.length := by
  obtain ⟨m₁, hfirst, hlen₁⟩ :=
    firstHash_eq message (length_innerPad password) (outerPad password) salt i htext
  obtain ⟨m₂, houter, hlen₂⟩ := outerHash_fits m₁ (length_outerPad password)
    (by omega) (length_sha256 (innerPad password ++ (salt ++ Pbkdf2.int i)))
  rw [houter, pads_eq] at hfirst
  obtain ⟨m₃, hrun, hlen₃⟩ := iterate_fits password salt m₂
    (by omega) i (iterations - 1).toNat
  have hturns : (iterations - 1).toNat = iterations.toNat - 1 := by omega
  rw [Pbkdf2.chain, hturns] at hrun
  exact ⟨m₃, by simp [deriveBlock, hfirst, hturns, hrun, Pbkdf2.block], by omega⟩

theorem deriveBlock_outside (hlen : message.length < 96)
    (htext : 64 + salt.length + 4 ≤ message.length) (i : Nat) :
    deriveBlock (innerPad password) (outerPad password) salt iterations i message = none := by
  obtain ⟨m, hfirst, hm⟩ :=
    firstHash_eq message (length_innerPad password) (outerPad password) salt i htext
  rw [outerHash_outside m (by omega) (length_sha256 _)] at hfirst
  simp [deriveBlock, hfirst]

/-- What the first blocks leave in the output. -/
theorem deriveBlocks_fits (hfit : 96 ≤ message.length)
    (htext : 64 + salt.length + 4 ≤ message.length) (output : List UInt8) {n : Nat}
    (hn : n ≤ (output.length + 31) / 32) :
    ∃ m, deriveBlocks (innerPad password) (outerPad password) salt iterations
        ((output.length + 31) / 32) message output n =
          some (m, (Pbkdf2.blocks hmacSha256 password.val salt iterations.toNat n).take
            output.length ++ output.drop (n * 32)) ∧
      m.length = message.length := by
  induction n with
  | zero => exact ⟨message, by simp [deriveBlocks, Pbkdf2.blocks], rfl⟩
  | succ n ih =>
      obtain ⟨m, hrun, hlen⟩ := ih (by omega)
      obtain ⟨m', hblock, hlen'⟩ := deriveBlock_fits password salt m iterations
        (by omega) (by omega) (n + 1)
      have hwhole : (Pbkdf2.blocks hmacSha256 password.val salt iterations.toNat n).length =
          n * 32 := Pbkdf2.length_blocks length_hmacSha256 ..
      have hone : (Pbkdf2.block hmacSha256 password.val salt iterations.toNat (n + 1)).length =
          32 := Pbkdf2.length_block length_hmacSha256 ..
      have hlast (l : List UInt8) (hl : l.length = output.length) :
          (Pbkdf2.block hmacSha256 password.val salt iterations.toNat (n + 1)).take
              (if n + 1 = (output.length + 31) / 32 then
                l.length - ((output.length + 31) / 32 - 1) * 32
              else 32) =
            (Pbkdf2.block hmacSha256 password.val salt iterations.toNat (n + 1)).take
              (output.length - n * 32) := by
        split
        · next heq => rw [← heq, hl, Nat.add_sub_cancel]
        · next hne => rw [List.take_of_length_le (by omega), List.take_of_length_le (by omega)]
      refine ⟨m', ?_, by omega⟩
      rw [deriveBlocks, hrun]
      simp only [Option.bind_eq_bind, Option.bind_some, hblock]
      rw [hlast _ (by simp; omega), List.take_of_length_le (by omega), ← hwhole,
        put_append (by simp)]
      have hdrop : output.drop (n * 32 + min (output.length - n * 32) 32) =
          output.drop ((n + 1) * 32) := by
        obtain hfull | hpart := Nat.le_total 32 (output.length - n * 32)
        · rw [min_eq_right hfull, Nat.succ_mul]
        · rw [min_eq_left hpart, List.drop_eq_nil_of_le (by omega),
            List.drop_eq_nil_of_le (by omega)]
      rw [List.length_take, List.drop_drop, hone, hwhole, hdrop, Pbkdf2.blocks_succ,
        List.take_append, List.take_of_length_le (l := Pbkdf2.blocks ..) (by omega), hwhole,
        List.append_assoc]
      rfl

theorem deriveBlocks_outside (hlen : message.length < 96)
    (htext : 64 + salt.length + 4 ≤ message.length) (count : Nat) (output : List UInt8) (n : Nat) :
    deriveBlocks (innerPad password) (outerPad password) salt iterations count message output
      (n + 1) = none := by
  induction n with
  | zero => simp [deriveBlocks, deriveBlock_outside password salt message iterations hlen htext]
  | succ n ih =>
      rw [deriveBlocks, ih]
      rfl

/-- `malloc`, and the loop over the blocks. -/
theorem pbkdf2Sha256_eq (heap : Nat → UInt8) (password : CStr) (salt : List UInt8)
    (iterations : Int) (output : List UInt8) (hshort : output.length + 31 < 2 ^ 64) :
    ∃ message, message.length = password.length + salt.length + 4 + 64 ∧
      pbkdf2Sha256 heap password salt iterations output =
        (deriveBlocks (innerPad password) (outerPad password) salt iterations
          ((output.length + 31) / 32) message output ((output.length + 31) / 32)).map
          Prod.snd := by
  refine ⟨(List.range (password.length + salt.length + 4 + 64)).map heap, by simp, ?_⟩
  rw [pbkdf2Sha256, Nat.mod_eq_of_lt hshort]
  rfl

/-- A short password with a short salt leaves no room for the outer text. -/
theorem pbkdf2Sha256_outside (heap : Nat → UInt8) {password : CStr} {salt output : List UInt8}
    (iterations : Int) (hroom : password.length + salt.length < 28) (hne : output ≠ [])
    (hshort : output.length + 31 < 2 ^ 64) :
    pbkdf2Sha256 heap password salt iterations output = none := by
  have hpos := List.length_pos_iff.mpr hne
  have hcount : (output.length + 31) / 32 = (output.length - 1) / 32 + 1 := by omega
  obtain ⟨message, hlen, hcode⟩ := pbkdf2Sha256_eq heap password salt iterations output hshort
  rw [hcode, hcount, deriveBlocks_outside password salt message iterations (by omega)
    (by omega)]
  rfl

/-- The output is the derived key exactly when the key is not too long, and the buffer has room for
the outer text of a turn. -/
theorem pbkdf2Sha256_eq_iff (heap : Nat → UInt8) (password : CStr) (salt : List UInt8)
    (iterations : Int) (output : List UInt8) :
    (∃ key, pbkdf2Sha256 heap password salt iterations output = some key ∧
      Pbkdf2.pbkdf2 hmacSha256 32 password.val salt iterations.toNat output.length = some key) ↔
      output.length ≤ (2 ^ 32 - 1) * 32 ∧
        (output = [] ∨ 28 ≤ password.length + salt.length) := by
  by_cases hlong : (2 ^ 32 - 1) * 32 < output.length
  · -- the standard derives no key of this length
    rw [Pbkdf2.pbkdf2, if_pos hlong]
    simp
    omega
  · by_cases hroom : 28 ≤ password.length + salt.length
    · obtain ⟨message, hlen, hcode⟩ := pbkdf2Sha256_eq heap password salt iterations
        output (by omega)
      obtain ⟨m, hrun, -⟩ := deriveBlocks_fits password salt message iterations
        (by omega) (by omega) output le_rfl
      rw [hcode, Pbkdf2.pbkdf2, if_neg hlong, hrun, List.drop_eq_nil_of_le (by omega),
        List.append_nil]
      simp [hroom]
      omega
    · by_cases hne : output = []
      · obtain ⟨message, hlen, hcode⟩ := pbkdf2Sha256_eq heap password salt iterations
          output (by omega)
        rw [hcode, Pbkdf2.pbkdf2, if_neg hlong, hne]
        simp [deriveBlocks, Pbkdf2.blocks]
      · rw [pbkdf2Sha256_outside heap iterations (by omega) hne (by omega)]
        simp [hne, hroom]

/-- A password of eight characters, hashed with a salt of the length all salts have. -/
theorem eightCharacters_outside :
    ¬∃ key, pbkdf2Sha256 (fun _ => 0) (CStr.lit "password") (List.replicate 16 0) 4096
        (List.replicate 32 0) = some key ∧
      Pbkdf2.pbkdf2 hmacSha256 32 (CStr.lit "password").val (List.replicate 16 0) 4096 32 =
        some key := by
  rw [pbkdf2Sha256_outside _ _ (by decide) (by decide) (by decide)]
  rintro ⟨key, hkey, -⟩
  cases hkey

end Blocks

end PasswordHash
end Server
end InventixDB
